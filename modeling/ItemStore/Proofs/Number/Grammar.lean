import ItemStore.Proofs.Number.Rational
import ItemStore.Proofs.Number.RoundTrip

/-!
The grammar of written numbers, each with the rational number that it denotes, and how texts are
read by it. The reading refuses a power of ten that is written with more than 18 digits, leading
zeros counted, whatever the number.
-/

namespace ItemStore

namespace Numeral

structure Digits (text : List Char) : Prop where
  begun : text ≠ []
  digit : ∀ c ∈ text, c.isDigit = true

def natural (digits : List Char) : Nat :=
  Nat.ofDigitChars 10 digits 0

inductive Sign : List Char → Bool → Prop
  | absent : Sign [] false
  | plus : Sign ['+'] false
  | minus : Sign ['-'] true

def signed {α : Type} [Neg α] (negative : Bool) (size : α) : α :=
  if negative then -size else size

/-- `digits [. digits?] | . digits` -/
inductive Mantissa : List Char → ℚ → Prop
  | whole {whole : List Char} (digits : Digits whole) : Mantissa whole (natural whole)
  | pointed {whole : List Char} (digits : Digits whole) :
      Mantissa (whole ++ ['.']) (natural whole)
  | both {whole fraction : List Char} (digits : Digits whole) (more : Digits fraction) :
      Mantissa (whole ++ '.' :: fraction) (natural whole + natural fraction / 10 ^ fraction.length)
  | fraction {fraction : List Char} (digits : Digits fraction) :
      Mantissa ('.' :: fraction) (natural fraction / 10 ^ fraction.length)

/-- `([eE] [+-]? digits)?`, with the power of ten and the number of digits that give it. -/
inductive Scale : List Char → ℤ → Nat → Prop
  | absent : Scale [] 0 0
  | marked {mark : Char} {sign digits : List Char} {negative : Bool}
      (letter : mark = 'e' ∨ mark = 'E') (signs : Sign sign negative) (given : Digits digits) :
      Scale (mark :: (sign ++ digits)) (signed negative (natural digits : ℤ)) digits.length

/-- `[+-]? mantissa scale`: the text denotes a value, by a power of ten of so many digits. -/
inductive Denotes : List Char → ℚ → Nat → Prop
  | number {sign mantissa scale : List Char} {negative : Bool} {size : ℚ} {power : ℤ} {length : Nat}
      (signs : Sign sign negative) (sized : Mantissa mantissa size)
      (scaled : Scale scale power length) :
      Denotes (sign ++ (mantissa ++ scale)) (signed negative size * 10 ^ power) length

/-! What the splitting of a text gives, and what it is given by. -/

theorem splitSign_of_sign {sign rest : List Char} {negative : Bool} (signs : Sign sign negative)
    (plain : ∀ c ∈ rest.head?, c ≠ '-' ∧ c ≠ '+') :
    splitSign (sign ++ rest) = (negative, rest) := by
  cases signs with
  | absent =>
      rw [List.nil_append]
      unfold splitSign
      split
      · exact absurd rfl (plain '-' rfl).1
      · exact absurd rfl (plain '+' rfl).2
      · rfl
  | plus => rfl
  | minus => rfl

theorem sign_of_splitSign {text rest : List Char} {negative : Bool}
    (split : splitSign text = (negative, rest)) :
    ∃ sign, Sign sign negative ∧ text = sign ++ rest := by
  unfold splitSign at split
  split at split
  · cases split
    exact ⟨['-'], .minus, rfl⟩
  · cases split
    exact ⟨['+'], .plus, rfl⟩
  · cases split
    exact ⟨[], .absent, rfl⟩

section

variable {stop : Char → Bool} {text before rest : List Char}

theorem eq_of_splitAt_none (split : splitAt stop text = (before, none)) : text = before := by
  have joined := List.takeWhile_append_dropWhile (p := fun c => !stop c) (l := text)
  rw [splitAt] at split
  cases dropped : text.dropWhile fun c => !stop c with
  | nil =>
      rw [dropped, List.append_nil] at joined
      exact joined.symm.trans (congrArg Prod.fst split)
  | cons mark rest =>
      rw [dropped] at split
      cases congrArg Prod.snd split

theorem eq_of_splitAt_some (split : splitAt stop text = (before, some rest)) :
    ∃ mark, stop mark = true ∧ text = before ++ mark :: rest := by
  have joined := List.takeWhile_append_dropWhile (p := fun c => !stop c) (l := text)
  have stops := List.head?_dropWhile_not (fun c => !stop c) text
  rw [splitAt] at split
  cases dropped : text.dropWhile fun c => !stop c with
  | nil =>
      rw [dropped] at split
      cases congrArg Prod.snd split
  | cons mark after =>
      rw [dropped] at split joined stops
      cases split
      exact ⟨mark, by simpa using stops, joined.symm⟩

end

theorem natural_append (whole fraction : List Char) :
    natural (whole ++ fraction) = 10 ^ fraction.length * natural whole + natural fraction := by
  rw [natural, Nat.ofDigitChars_append, Nat.ofDigitChars_eq_ofDigitChars_zero]
  rfl

theorem natural_append_div (whole fraction : List Char) :
    (natural (whole ++ fraction) : ℚ) / 10 ^ fraction.length =
      natural whole + natural fraction / 10 ^ fraction.length := by
  have nonzero : (10 : ℚ) ^ fraction.length ≠ 0 := by positivity
  rw [natural_append]
  push_cast
  rw [add_div, mul_div_cancel_left₀ _ nonzero]

structure Sides (whole fraction : List Char) : Prop where
  digits : ∀ c ∈ whole, c.isDigit = true
  more : ∀ c ∈ fraction, c.isDigit = true
  begun : whole ≠ [] ∨ fraction ≠ []

theorem sides_iff {whole fraction : List Char} :
    Sides whole fraction ↔ (whole.isEmpty && fraction.isEmpty || !whole.all Char.isDigit ||
      !fraction.all Char.isDigit) = false := by
  simp only [Bool.or_eq_false_iff, Bool.and_eq_false_iff, Bool.not_eq_false', List.all_eq_true,
    List.isEmpty_eq_false_iff]
  exact ⟨fun sides => ⟨⟨sides.begun, sides.digits⟩, sides.more⟩,
    fun ⟨⟨begun, digits⟩, more⟩ => ⟨digits, more, begun⟩⟩

theorem mantissa_iff {text : List Char} {size : ℚ} :
    Mantissa text size ↔ ∃ whole fraction, text = spell false whole fraction ∧
      Sides whole (fraction.getD []) ∧
      size = natural (whole ++ fraction.getD []) / 10 ^ (fraction.getD []).length := by
  constructor
  · intro sized
    cases sized with
    | whole digits =>
        refine ⟨text, none, ?_, ⟨digits.digit, ?_, Or.inl digits.begun⟩, ?_⟩
        · simp [spell]
        · simp
        · simp
    | @pointed whole digits =>
        refine ⟨whole, some [], ?_, ⟨digits.digit, ?_, Or.inl digits.begun⟩, ?_⟩
        · simp [spell]
        · simp
        · simp
    | @both whole fraction digits more =>
        refine ⟨whole, some fraction, ?_, ⟨digits.digit, more.digit, Or.inl digits.begun⟩, ?_⟩
        · simp [spell]
        · exact (natural_append_div whole fraction).symm
    | @fraction fraction digits =>
        refine ⟨[], some fraction, ?_, ⟨?_, digits.digit, Or.inr digits.begun⟩, ?_⟩
        · simp [spell]
        · simp
        · simp
  · rintro ⟨whole, fraction, rfl, ⟨digits, more, begun⟩, rfl⟩
    rcases fraction with _ | fraction
    · simpa [spell] using Mantissa.whole ⟨begun.resolve_right (by simp), digits⟩
    rcases eq_or_ne whole [] with rfl | nonempty
    · exact .fraction ⟨begun.resolve_left (by simp), more⟩
    rcases eq_or_ne fraction [] with rfl | further
    · simpa [spell] using Mantissa.pointed ⟨nonempty, digits⟩
    · rw [Option.getD_some, natural_append_div]
      exact .both ⟨nonempty, digits⟩ ⟨further, more⟩

theorem plain_of_isDigit {c : Char} (digit : c.isDigit = true) : c ≠ '-' ∧ c ≠ '+' :=
  ⟨ne_of_isDigit digit '-' (by decide), ne_of_isDigit digit '+' (by decide)⟩

theorem readScale?_of_digits {sign digits : List Char} {negative : Bool}
    (signs : Sign sign negative) (given : Digits digits) :
    readScale? (sign ++ digits) =
      if digits.length ≤ 18 then some (signed negative (natural digits : ℤ)) else none := by
  have plain : ∀ c ∈ digits.head?, c ≠ '-' ∧ c ≠ '+' := fun c first =>
    plain_of_isDigit (given.digit c (List.mem_of_mem_head? first))
  have all : digits.all Char.isDigit = true := List.all_eq_true.mpr given.digit
  have begun : digits.isEmpty = false := List.isEmpty_eq_false_iff.mpr given.begun
  rw [readScale?, splitSign_of_sign signs plain]
  by_cases short : digits.length ≤ 18
  · simp [maxScaleDigits, begun, all, short, Nat.not_lt.mpr short, signed, natural]
  · simp [maxScaleDigits, short, Nat.not_le.mp short]

theorem digits_of_readScale? {text : List Char} {power : ℤ} (read : readScale? text = some power) :
    ∃ sign digits negative, Sign sign negative ∧ Digits digits ∧ digits.length ≤ 18 ∧
      text = sign ++ digits ∧ power = signed negative (natural digits : ℤ) := by
  rcases signed : splitSign text with ⟨negative, digits⟩
  obtain ⟨sign, signs, parts⟩ := sign_of_splitSign signed
  simp only [readScale?, signed, Option.ite_none_left_eq_some, Option.some.injEq] at read
  obtain ⟨accepted, same⟩ := read
  simp only [Bool.or_eq_true, not_or, List.isEmpty_iff, decide_eq_true_eq, Nat.not_lt,
    Bool.not_eq_true', Bool.not_eq_false, List.all_eq_true] at accepted
  obtain ⟨⟨begun, short⟩, given⟩ := accepted
  exact ⟨sign, digits, negative, signs, ⟨begun, given⟩, short, parts, same.symm⟩

def readAfter? : Option (List Char) → Option ℤ
  | none => some 0
  | some text => readScale? text

theorem Scale.read {text : List Char} {power : ℤ} {length : Nat} (scaled : Scale text power length)
    {mantissa : List Char} (free : ∀ c ∈ mantissa, (c == 'e' || c == 'E') = false) :
    ∃ after, splitAt (fun c => c == 'e' || c == 'E') (mantissa ++ text) = (mantissa, after) ∧
      readAfter? after = if length ≤ 18 then some power else none := by
  cases scaled with
  | absent => exact ⟨none, by rw [List.append_nil, splitAt_of_none free], rfl⟩
  | @marked mark sign digits negative letter signs given =>
      have stops : (mark == 'e' || mark == 'E') = true := by simpa using letter
      exact ⟨some (sign ++ digits), splitAt_of_first free stops _,
        readScale?_of_digits signs given⟩

theorem scale_of_readAfter? {body mantissa : List Char} {after : Option (List Char)} {power : ℤ}
    (split : splitAt (fun c => c == 'e' || c == 'E') body = (mantissa, after))
    (read : readAfter? after = some power) :
    ∃ scale, ∃ length ≤ 18, Scale scale power length ∧ body = mantissa ++ scale := by
  cases after with
  | none =>
      cases read
      exact ⟨[], 0, Nat.zero_le _, .absent, by rw [List.append_nil, eq_of_splitAt_none split]⟩
  | some text =>
      obtain ⟨mark, stops, parts⟩ := eq_of_splitAt_some split
      obtain ⟨sign, digits, negative, signs, given, short, rfl, rfl⟩ := digits_of_readScale? read
      exact ⟨_, _, short, .marked (by simpa using stops) signs given, parts⟩

section

variable {text body mantissa whole : List Char} {negative : Bool}
  {after fraction : Option (List Char)}

theorem read?_of_splits (signed : splitSign text = (negative, body))
    (scaled : splitAt (fun c => c == 'e' || c == 'E') body = (mantissa, after))
    (pointed : splitAt (· == '.') mantissa = (whole, fraction))
    (sides : Sides whole (fraction.getD [])) :
    read? text =
      (readAfter? after).map fun power => ⟨negative, whole, fraction.getD [], power⟩ := by
  simp only [read?, signed, scaled, pointed, sides_iff.mp sides]
  cases after with
  | none => rfl
  | some text => exact Option.map_eq_bind.symm

theorem sides_of_read? {numeral : Numeral} (signed : splitSign text = (negative, body))
    (scaled : splitAt (fun c => c == 'e' || c == 'E') body = (mantissa, after))
    (pointed : splitAt (· == '.') mantissa = (whole, fraction))
    (read : read? text = some numeral) : Sides whole (fraction.getD []) := by
  simp only [read?, signed, scaled, pointed, Option.ite_none_left_eq_some] at read
  exact sides_iff.mpr (Bool.eq_false_iff.mpr read.1)

end

theorem toRat_value (negative : Bool) (whole fraction : List Char) (power : ℤ) :
    (value ⟨negative, whole, fraction, power⟩).toRat =
      signed negative ((natural (whole ++ fraction) : ℚ) / 10 ^ fraction.length) * 10 ^ power := by
  have scaled : (10 : ℚ) ^ (power - fraction.length) = 10 ^ power / 10 ^ fraction.length := by
    rw [zpow_sub₀ (by norm_num), zpow_natCast]
  simp only [value, Decimal.toRat_ofScaled, scaled, signed, natural]
  cases negative with
  | true =>
      simp only [↓reduceIte]
      push_cast
      ring
  | false =>
      simp only [Bool.false_eq_true, ↓reduceIte]
      push_cast
      ring

/-- What denotes a value is read as that value, if its power of ten has at most 18 digits. -/
theorem read?_of_denotes {text : List Char} {size : ℚ} {length : Nat}
    (denotes : Denotes text size length) :
    ∃ numeral : Numeral, numeral.value.toRat = size ∧
      read? text = if length ≤ 18 then some numeral else none := by
  obtain ⟨signs, sized, scaled⟩ := denotes
  rename_i sign mantissa scale negative size power
  obtain ⟨whole, fraction, rfl, sides, rfl⟩ := mantissa_iff.mp sized
  have known := fun c => digit_or_point_of_mem_spell (c := c) sides.digits sides.more
  have nonempty : spell false whole fraction ≠ [] := by
    rcases fraction with _ | fraction
    · simpa [spell] using sides.begun
    · simp [spell]
  have plain : ∀ c ∈ (spell false whole fraction ++ scale).head?, c ≠ '-' ∧ c ≠ '+' := by
    intro c first
    rw [List.head?_append_of_ne_nil _ nonempty] at first
    rcases known c (List.mem_of_mem_head? first) with digit | rfl
    · exact plain_of_isDigit digit
    · exact ⟨by decide, by decide⟩
  obtain ⟨after, split, scaleRead⟩ := scaled.read fun c member => unmarked (known c member)
  refine ⟨⟨negative, whole, fraction.getD [], power⟩, toRat_value _ _ _ _, ?_⟩
  rw [read?_of_splits (splitSign_of_sign signs plain) split (splitAt_spell sides.digits)
    sides, scaleRead]
  split <;> rfl

theorem spell_of_splitAt {text whole : List Char} {fraction : Option (List Char)}
    (split : splitAt (· == '.') text = (whole, fraction)) : text = spell false whole fraction := by
  cases fraction with
  | none => simpa [spell] using eq_of_splitAt_none split
  | some fraction =>
      obtain ⟨point, stops, parts⟩ := eq_of_splitAt_some split
      rw [beq_iff_eq] at stops
      rw [parts, stops]
      rfl

/-- What is read denotes the value that it is read as. -/
theorem denotes_of_read? {text : List Char} {numeral : Numeral}
    (read : read? text = some numeral) :
    ∃ length ≤ 18, Denotes text numeral.value.toRat length := by
  rcases signed : splitSign text with ⟨negative, body⟩
  rcases scaledAt : splitAt (fun c => c == 'e' || c == 'E') body with ⟨mantissa, after⟩
  rcases pointed : splitAt (· == '.') mantissa with ⟨whole, fraction⟩
  have sides := sides_of_read? signed scaledAt pointed read
  rw [read?_of_splits signed scaledAt pointed sides] at read
  obtain ⟨power, scaleRead, rfl⟩ := Option.map_eq_some_iff.mp read
  obtain ⟨sign, signs, rfl⟩ := sign_of_splitSign signed
  obtain ⟨scale, length, short, scaled, rfl⟩ := scale_of_readAfter? scaledAt scaleRead
  have sized := mantissa_iff.mpr ⟨whole, fraction, spell_of_splitAt pointed, sides, rfl⟩
  refine ⟨length, short, ?_⟩
  rw [toRat_value]
  exact .number signs sized scaled

end Numeral

namespace Number

open Numeral (Denotes)

/-- The text denotes the value, by a power of ten of at most 18 digits. -/
def Spells (text : String) (value : ℚ) : Prop :=
  ∃ length ≤ 18, Denotes text.toList value length

theorem ofDecimal_ok_iff {value : Decimal} {number : Number} :
    ofDecimal value = .ok number ↔ number.value = value := by
  constructor
  · intro taken
    unfold ofDecimal at taken
    split at taken
    · cases taken
      rfl
    · cases taken
  · rintro rfl
    exact ofDecimal_value number

theorem ofDecimal_error_iff {value : Decimal} {error : NumberError} :
    ofDecimal value = .error error ↔ value.limitError? = some error := by
  unfold ofDecimal
  split
  · rename_i fits
    simp [fits]
  · rename_i refused limited
    simp [limited]

theorem spells_iff {text : String} {value : ℚ} :
    Spells text value ↔
      ∃ numeral, Numeral.read? text.toList = some numeral ∧ numeral.value.toRat = value := by
  constructor
  · rintro ⟨length, short, denotes⟩
    obtain ⟨numeral, same, read⟩ := Numeral.read?_of_denotes denotes
    exact ⟨numeral, read.trans (if_pos short), same⟩
  · rintro ⟨numeral, read, rfl⟩
    exact Numeral.denotes_of_read? read

theorem read?_eq_none_iff {text : List Char} :
    Numeral.read? text = none ↔
      (¬∃ value length, Denotes text value length) ∨
        ∃ value length, 18 < length ∧ Denotes text value length := by
  constructor
  · intro unread
    rw [or_iff_not_imp_left, not_not]
    rintro ⟨value, length, denotes⟩
    obtain ⟨numeral, _, read⟩ := Numeral.read?_of_denotes denotes
    refine ⟨value, length, Nat.not_le.mp fun short => ?_, denotes⟩
    rw [unread, if_pos short] at read
    cases read
  · rintro (unwritten | ⟨value, length, long, denotes⟩)
    · cases read : Numeral.read? text with
      | none => rfl
      | some numeral =>
          obtain ⟨length, _, denotes⟩ := Numeral.denotes_of_read? read
          exact absurd ⟨_, length, denotes⟩ unwritten
    · obtain ⟨numeral, _, read⟩ := Numeral.read?_of_denotes denotes
      rw [read, if_neg (Nat.not_le.mpr long)]

theorem parse_ok_iff {text : String} {value : ℚ} :
    (∃ number, parse text = .ok number ∧ number.value.toRat = value) ↔
      Spells text value ∧ Judged value none := by
  rw [spells_iff, parse]
  cases Numeral.read? text.toList with
  | none => simp
  | some numeral =>
      simp only [ofDecimal_ok_iff, Option.some.injEq, exists_eq_left']
      constructor
      · rintro ⟨number, taken, rfl⟩
        exact ⟨by rw [taken], Decimal.limitError?_eq_iff.mp number.fits⟩
      · rintro ⟨rfl, fits⟩
        exact ⟨⟨numeral.value, Decimal.limitError?_eq_iff.mpr fits⟩, rfl, rfl⟩

theorem parse_error_iff {text : String} {error : NumberError} :
    parse text = .error error ↔
      (error = .invalid text ∧ Numeral.read? text.toList = none) ∨
        ∃ value, Spells text value ∧ Judged value (some error) := by
  simp only [spells_iff, parse]
  cases Numeral.read? text.toList with
  | none => simp [eq_comm]
  | some numeral => simp [ofDecimal_error_iff, Decimal.limitError?_eq_iff]

/-- How a text is read as a number, by its value as the grammar gives it. The number is that value
if it is zero or within the limits; a larger one overflows, a smaller one underflows, and one
between them has too many digits. A text is refused as no number exactly if the grammar does not
give it or it has a power of ten of more than 18 digits. -/
theorem parse_numerals (text : String) :
    (∀ value, (∃ number, parse text = .ok number ∧ number.value.toRat = value) ↔
      Spells text value ∧ Storable value) ∧
    (parse text = .error .overflow ↔ ∃ value, Spells text value ∧ 10 ^ (126 : ℤ) ≤ |value|) ∧
    (parse text = .error .underflow ↔
      ∃ value, Spells text value ∧ 0 < |value| ∧ |value| < 10 ^ (-130 : ℤ)) ∧
    (parse text = .error .tooPrecise ↔
      ∃ value, Spells text value ∧ 10 ^ (-130 : ℤ) ≤ |value| ∧ |value| < 10 ^ (126 : ℤ) ∧
        ¬HasDigits 38 value) ∧
    (∀ given, parse text = .error (.invalid given) ↔ given = text ∧
      ((¬∃ value length, Denotes text.toList value length) ∨
        ∃ value length, 18 < length ∧ Denotes text.toList value length)) := by
  refine ⟨fun value => ?_, ?_, ?_, ?_, fun given => ?_⟩
  · simp [parse_ok_iff, judged_iff]
  · simp [parse_error_iff, judged_iff]
  · simp [parse_error_iff, judged_iff]
  · simp [parse_error_iff, judged_iff]
  · simp [parse_error_iff, judged_iff, read?_eq_none_iff]

/-- A power of ten of nineteen digits, of which all but the last are zeros: the text denotes ten,
and is refused as no number. -/
theorem parse_leadingZeros :
    Denotes "1e0000000000000000001".toList 10 19 ∧ Storable 10 ∧
      parse "1e0000000000000000001" = .error (.invalid "1e0000000000000000001") := by
  have one : Numeral.Digits ['1'] := ⟨by simp, List.all_eq_true.mp rfl⟩
  have power : Numeral.Digits (List.replicate 18 '0' ++ ['1']) :=
    ⟨by simp, List.all_eq_true.mp rfl⟩
  have denotes : Denotes "1e0000000000000000001".toList 10 19 := by
    have parts := Denotes.number .absent (.whole one) (.marked (Or.inl rfl) .absent power)
    have value : Numeral.signed false (Numeral.natural ['1'] : ℚ) *
        10 ^ Numeral.signed false (Numeral.natural (List.replicate 18 '0' ++ ['1']) : ℤ) = 10 := by
      have single : Numeral.natural ['1'] = 1 := by decide
      have padded : Numeral.natural (List.replicate 18 '0' ++ ['1']) = 1 := by decide
      norm_num [Numeral.signed, single, padded]
    rw [value] at parts
    exact parts
  have storable : Storable 10 :=
    Or.inr ⟨⟨1, 1, by norm_num, by norm_num⟩, by norm_num, by norm_num⟩
  refine ⟨denotes, storable, parse_error_iff.mpr (Or.inl ⟨rfl, ?_⟩)⟩
  exact read?_eq_none_iff.mpr (Or.inr ⟨10, 19, by decide, denotes⟩)

end Number
end ItemStore
