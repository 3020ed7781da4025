import ItemStore.Json.Basic
import ItemStore.Number.Decimal

/-!
Numbers of 64-bit floating point, by exact arithmetic on integers: rounding to the nearest with ties
to even, the fewest decimal digits that read back, and the reading of written numbers.
-/

namespace ItemStore

/-- The finite number `mantissa * 2 ^ exponent`, with a sign that zero has as well. -/
structure Double where
  negative : Bool
  mantissa : Nat
  exponent : Int
deriving DecidableEq

namespace Double

def mantissaLimit : Nat := 1 <<< 53

def minExponent : Int := -1074
def maxExponent : Int := 971

def roundQuotient (numerator denominator : Nat) : Nat :=
  let floor := numerator / denominator
  let twice := 2 * (numerator % denominator)
  if denominator < twice || (twice == denominator && floor % 2 == 1) then floor + 1 else floor

def powerOf (base : Nat) (exponent : Int) : Nat :=
  Nat.pow base exponent.toNat

def ofRatio? (negative : Bool) (numerator denominator : Nat) : Option Double :=
  if numerator = 0 then some ⟨negative, 0, 0⟩
  else
    let estimate : Int := (numerator.log2 : Int) - denominator.log2 - 52
    let small := numerator * powerOf 2 (-estimate) <
      mantissaLimit / 2 * (denominator * powerOf 2 estimate)
    let exponent := max minExponent (if small then estimate - 1 else estimate)
    let mantissa := roundQuotient (numerator * powerOf 2 (-exponent))
      (denominator * powerOf 2 exponent)
    let rounded : Double :=
      if mantissa = mantissaLimit then ⟨negative, mantissa / 2, exponent + 1⟩
      else ⟨negative, mantissa, exponent⟩
    if maxExponent < rounded.exponent then none else some rounded

def mul? (a b : Double) : Option Double :=
  let exponent := a.exponent + b.exponent
  ofRatio? (a.negative != b.negative) (a.mantissa * b.mantissa * powerOf 2 exponent)
    (powerOf 2 (-exponent))

def div? (a b : Double) : Option Double :=
  let exponent := a.exponent - b.exponent
  ofRatio? (a.negative != b.negative) (a.mantissa * powerOf 2 exponent)
    (b.mantissa * powerOf 2 (-exponent))

def zero (negative : Bool) : Double := ⟨negative, 0, 0⟩

def ofNat (value : Nat) : Double :=
  (ofRatio? false value 1).getD (zero false)

def maxPower : Nat := 308

def scale? : Nat → Double → Int → Option Double
  | 0, value, _ => some (zero value.negative)
  | steps + 1, value, exponent =>
      if value.mantissa = 0 then some value
      else if exponent.natAbs ≤ maxPower then
        let power := ofNat (powerOf 10 exponent.natAbs)
        if 0 ≤ exponent then mul? value power else div? value power
      else if 0 ≤ exponent then none
      else
        match div? value (ofNat (powerOf 10 maxPower)) with
        | some value => scale? steps value (exponent + maxPower)
        | none => none

def takeDigits (significand : Nat) : List Char → Nat × List Char
  | [] => (significand, [])
  | digit :: rest =>
      let longer := significand * 10 + (digit.toNat - 48)
      if longer < UInt64.size then takeDigits longer rest else (significand, digit :: rest)

/-- The number that a written number is read as. Digits that do not fit the significand count as
zeros before the point and are dropped after it. -/
def ofJsonNumber? (written : JsonNumber) : Option Double :=
  let (whole, unread) := takeDigits 0 written.whole
  let fraction := written.fraction.getD []
  let (significand, dropped) := takeDigits whole fraction
  let shift : Int := unread.length - (fraction.length - dropped.length : Nat)
  let start := (ofRatio? written.negative significand 1).getD (zero written.negative)
  match written.exponent with
  | none => scale? 4 start shift
  | some (negative, digits) =>
      let size := Nat.ofDigitChars 10 digits 0
      if size ≤ 0x7fffffff then
        let exponent := if negative then shift - size else shift + size
        scale? 4 start (max (-0x80000000) (min 0x7fffffff exponent))
      else if significand = 0 || negative then some (zero written.negative)
      else none

def compareDecimal (count : Nat) (power : Int) (quarters : Nat) (exponent : Int) : Ordering :=
  compare (count * powerOf 10 power * powerOf 2 (-exponent))
    (quarters * powerOf 2 exponent * powerOf 10 (-power))

/-- Whether a decimal reads back as the number: it lies between the midpoints to the neighbours, or
on one when the mantissa is even. -/
def readsBack (value : Double) (count : Nat) (power : Int) : Bool :=
  let exponent := value.exponent - 2
  let narrow := value.mantissa = mantissaLimit / 2 && minExponent < value.exponent
  let low := 4 * value.mantissa - (if narrow then 1 else 2)
  let fromLow := compareDecimal count power low exponent
  let fromHigh := compareDecimal count power (4 * value.mantissa + 2) exponent
  if value.mantissa % 2 = 0 then fromLow.isGE && fromHigh.isLE else fromLow.isGT && fromHigh.isLT

def onGrid? (value : Double) (power : Int) : Option Nat :=
  let exponent := value.exponent - 2
  let floor := 4 * value.mantissa * powerOf 2 exponent * powerOf 10 (-power) /
    (powerOf 10 power * powerOf 2 (-exponent))
  let below := floor != 0 && value.readsBack floor power
  let above := value.readsBack (floor + 1) power
  let upper := (compareDecimal (2 * floor + 1) power (8 * value.mantissa) exponent).isLT
  if below && above then some (if upper then floor + 1 else floor)
  else if below then some floor
  else if above then some (floor + 1)
  else none

def shortestFrom (value : Double) : Nat → Int → Decimal
  | 0, _ => 0
  | steps + 1, power =>
      match value.onGrid? power with
      | some count => Decimal.ofScaled count power
      | none => shortestFrom value steps (power - 1)

/-- The decimal of fewest digits that reads back as the number, without its sign. -/
def shortest (value : Double) : Decimal :=
  if value.mantissa = 0 then 0
  else
    let whole := value.mantissa * powerOf 2 value.exponent / powerOf 2 (-value.exponent)
    let digits := (Nat.toDigits 10 whole).length
    shortestFrom value (digits + 400) digits

def toJsonNumber (value : Double) : JsonNumber :=
  let text := value.shortest.magnitudeText
  let fraction := (text.dropWhile (· != '.')).drop 1
  ⟨value.negative, text.takeWhile (· != '.'), some (if fraction.isEmpty then ['0'] else fraction),
    none⟩

end Double
end ItemStore
