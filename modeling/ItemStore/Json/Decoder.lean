import ItemStore.Dict
import ItemStore.Json.Basic

/-!
Taking trees apart. A decoder is told how many arrays and objects may still be nested around what it
reads, and refuses to enter one more. What it passes over is not limited.
-/

namespace ItemStore

abbrev Decoder (α : Type) := Nat → Json → Option α

namespace Decoder

variable {α : Type}

def maxNesting : Nat := 127

def run (decoder : Decoder α) (value : Json) : Option α :=
  decoder maxNesting value

def text : Decoder String
  | _, .string text => some text
  | _, _ => none

def flag : Decoder Bool
  | _, .bool flag => some flag
  | _, _ => none

def int32 : Decoder Int
  | _, .number written => written.toInt?.filter fun value =>
      Int32.minValue.toInt ≤ value && value ≤ Int32.maxValue.toInt
  | _, _ => none

def list (element : Decoder α) : Decoder (List α)
  | allowance + 1, .array elements => elements.mapM (element allowance)
  | _, _ => none

def dict (value : Decoder α) : Decoder (Dict String α)
  | allowance + 1, .object members =>
      (members.mapM fun member => (value allowance member.2).map fun value => (member.1, value)).map
        Dict.ofList
  | _, _ => none

def choice (alternatives : List (String × α)) : Decoder α
  | _, .string name => alternatives.lookup name
  | _ + 1, .object [(name, .null)] => alternatives.lookup name
  | _, _ => none

end Decoder

structure Record where
  allowance : Nat
  positional : Bool
  fields : List (String × Json)

namespace Record

variable {α : Type}

def open? (names : List String) : Decoder Record
  | allowance + 1, .object members =>
      let fields := members.filter fun member => names.contains member.1
      if (fields.map Prod.fst).Nodup then some ⟨allowance, false, fields⟩ else none
  | allowance + 1, .array elements =>
      if elements.length ≤ names.length then some ⟨allowance, true, names.zip elements⟩ else none
  | _, _ => none

def required (record : Record) (name : String) (decoder : Decoder α) : Option α := do
  decoder record.allowance (← record.fields.lookup name)

def optional (record : Record) (name : String) (decoder : Decoder α) : Option (Option α) :=
  match record.fields.lookup name with
  | none => if record.positional then none else some none
  | some .null => some none
  | some body => (decoder record.allowance body).map some

def defaulted (record : Record) (name : String) (default : α) (decoder : Decoder α) : Option α :=
  match record.fields.lookup name with
  | none => some default
  | some body => decoder record.allowance body

end Record
end ItemStore
