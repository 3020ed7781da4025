import ItemStore.Number.Decimal

/-!
Written numbers: an optional sign, digits with an optional point among or around them, and an
optional power of ten after `e` or `E`.
-/

namespace ItemStore

structure Numeral where
  negative : Bool
  whole : List Char
  fraction : List Char
  scale : Int
deriving DecidableEq

namespace Numeral

def splitSign : List Char → Bool × List Char
  | '-' :: rest => (true, rest)
  | '+' :: rest => (false, rest)
  | text => (false, text)

def splitAt (stop : Char → Bool) (text : List Char) : List Char × Option (List Char) :=
  (text.takeWhile fun c => !stop c,
    match text.dropWhile fun c => !stop c with
    | [] => none
    | _ :: rest => some rest)

def maxScaleDigits : Nat := 18

def readScale? (text : List Char) : Option Int :=
  let (negative, digits) := splitSign text
  if digits.isEmpty || maxScaleDigits < digits.length || !digits.all Char.isDigit then none
  else
    let size : Int := Nat.ofDigitChars 10 digits 0
    some (if negative then -size else size)

def read? (text : List Char) : Option Numeral := do
  let (negative, body) := splitSign text
  let (mantissa, scaleText) := splitAt (fun c => c == 'e' || c == 'E') body
  let (whole, afterPoint) := splitAt (· == '.') mantissa
  let fraction := afterPoint.getD []
  if (whole.isEmpty && fraction.isEmpty) || !whole.all Char.isDigit || !fraction.all Char.isDigit
  then none
  else
    let scale ← match scaleText with
      | none => some 0
      | some scaleText => readScale? scaleText
    some ⟨negative, whole, fraction, scale⟩

def value (numeral : Numeral) : Decimal :=
  let size : Int := Nat.ofDigitChars 10 (numeral.whole ++ numeral.fraction) 0
  Decimal.ofScaled (if numeral.negative then -size else size)
    (numeral.scale - numeral.fraction.length)

end Numeral
end ItemStore
