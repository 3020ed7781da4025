/-!
Trees of JSON values. Numbers keep their spelling, since what a number may be depends on where it
stands.
-/

namespace ItemStore

structure JsonNumber where
  negative : Bool
  whole : List Char
  fraction : Option (List Char)
  exponent : Option (Bool × List Char)
deriving DecidableEq

namespace JsonNumber

def ofInt (value : Int) : JsonNumber :=
  ⟨value < 0, Nat.toDigits 10 value.natAbs, none, none⟩

def toInt? (number : JsonNumber) : Option Int :=
  match number.fraction, number.exponent with
  | none, none =>
      let size : Int := Nat.ofDigitChars 10 number.whole 0
      if !number.negative then some size
      else if size = 0 then none
      else some (-size)
  | _, _ => none

end JsonNumber

inductive Json where
  | null
  | bool (flag : Bool)
  | number (written : JsonNumber)
  | string (text : String)
  | array (elements : List Json)
  | object (members : List (String × Json))
  | unreadable

instance : Inhabited Json := ⟨.null⟩

namespace Json

def ofInt (value : Int) : Json :=
  .number (.ofInt value)

def get? : Json → String → Option Json
  | .object members, name => (members.find? fun member => member.1 == name).map Prod.snd
  | _, _ => none

end Json
end ItemStore
