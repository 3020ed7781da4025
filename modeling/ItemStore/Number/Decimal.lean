/-!
Exact decimal numbers: an integer times a power of ten. The integer ends in no zero, so equal
numbers have equal parts.
-/

namespace ItemStore

structure Decimal where
  coefficient : Int
  exponent : Int
  normal : coefficient % 10 = 0 → coefficient = 0 ∧ exponent = 0
deriving DecidableEq

namespace Decimal

def ofScaled (coefficient exponent : Int) : Decimal :=
  if coefficient = 0 then ⟨0, 0, fun _ => ⟨rfl, rfl⟩⟩
  else if divisible : coefficient % 10 = 0 then ofScaled (coefficient / 10) (exponent + 1)
  else ⟨coefficient, exponent, fun zero => absurd zero divisible⟩
termination_by coefficient.natAbs
decreasing_by omega

def ofInt (value : Int) : Decimal :=
  ofScaled value 0

instance : OfNat Decimal 0 := ⟨⟨0, 0, fun _ => ⟨rfl, rfl⟩⟩⟩

def coefficientAt (number : Decimal) (exponent : Int) : Int :=
  number.coefficient * Nat.pow 10 (number.exponent - exponent).toNat

def add (a b : Decimal) : Decimal :=
  let shared := min a.exponent b.exponent
  ofScaled (a.coefficientAt shared + b.coefficientAt shared) shared

def sub (a b : Decimal) : Decimal :=
  let shared := min a.exponent b.exponent
  ofScaled (a.coefficientAt shared - b.coefficientAt shared) shared

instance : Add Decimal := ⟨add⟩
instance : Sub Decimal := ⟨sub⟩

instance : Ord Decimal where
  compare a b :=
    let shared := min a.exponent b.exponent
    compare (a.coefficientAt shared) (b.coefficientAt shared)

def digits (number : Decimal) : List Char :=
  Nat.toDigits 10 number.coefficient.natAbs

def leadingExponent (number : Decimal) : Int :=
  number.digits.length - 1 + number.exponent

def magnitudeText (number : Decimal) : List Char :=
  let digits := number.digits
  if 0 ≤ number.exponent then digits ++ List.replicate number.exponent.toNat '0'
  else
    let places := (-number.exponent).toNat
    if places < digits.length then
      digits.take (digits.length - places) ++ '.' :: digits.drop (digits.length - places)
    else '0' :: '.' :: (List.replicate (places - digits.length) '0' ++ digits)

def text (number : Decimal) : String :=
  String.ofList <|
    if number.coefficient < 0 then '-' :: number.magnitudeText else number.magnitudeText

end Decimal
end ItemStore
