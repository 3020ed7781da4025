import ItemStore.Number.Numeral

/-!
The numbers that can be stored: at most 38 significant digits, and a magnitude from `1E-130` to
below `1E+126`. A text denotes such a number, or the reason why it does not.
-/

namespace ItemStore

inductive NumberError where
  | invalid (text : String)
  | tooPrecise
  | overflow
  | underflow
deriving DecidableEq, Repr

def NumberError.message : NumberError → String
  | .invalid text => "A value provided cannot be converted into a number: " ++ text
  | .tooPrecise => "Attempting to store more than 38 significant digits in a Number"
  | .overflow =>
      "Number overflow. Attempting to store a number with magnitude larger than supported range"
  | .underflow =>
      "Number underflow. Attempting to store a number with magnitude smaller than supported range"

namespace Decimal

def maxDigits : Nat := 38
def maxLeadingExponent : Int := 125
def minLeadingExponent : Int := -130

def limitError? (number : Decimal) : Option NumberError :=
  if number.coefficient = 0 then none
  else if maxLeadingExponent < number.leadingExponent then some .overflow
  else if number.leadingExponent < minLeadingExponent then some .underflow
  else if maxDigits < number.digits.length then some .tooPrecise
  else none

end Decimal

structure Number where
  value : Decimal
  fits : value.limitError? = none
deriving DecidableEq

namespace Number

instance : Ord Number := ⟨fun a b => compare a.value b.value⟩

def ofDecimal (value : Decimal) : Except NumberError Number :=
  match fits : value.limitError? with
  | none => .ok ⟨value, fits⟩
  | some error => .error error

def parse (text : String) : Except NumberError Number :=
  match Numeral.read? text.toList with
  | none => .error (.invalid text)
  | some numeral => ofDecimal numeral.value

def text (number : Number) : String :=
  number.value.text

def add (a b : Number) : Except NumberError Number :=
  ofDecimal (a.value + b.value)

def sub (a b : Number) : Except NumberError Number :=
  ofDecimal (a.value - b.value)

def canonical (text : String) : String :=
  match parse text with
  | .ok number => number.text
  | .error _ => text

def addTexts (a b : String) : Except NumberError String := do
  let sum ← (← parse a).add (← parse b)
  return sum.text

def subTexts (a b : String) : Except NumberError String := do
  let difference ← (← parse a).sub (← parse b)
  return difference.text

def compareTexts? (a b : String) : Option Ordering :=
  match parse a, parse b with
  | .ok a, .ok b => some (compare a b)
  | _, _ => none

def sameTexts (a b : String) : Bool :=
  compareTexts? a b == some .eq

end Number
end ItemStore
