import ItemStore.Value.Basic
import ItemStore.Json.Decoder

/-!
Values and items as JSON: a value is an object whose one key is its descriptor, a number is its
text, and bytes are their base64.
-/

namespace ItemStore
namespace AttributeValue

def bytesJson (bytes : Bytes) : Json :=
  .string (String.ofList (Text.Base64.standard.encode bytes))

def bytesOfJson? : Json → Option Bytes
  | .string text => Text.Base64.standard.decode text.toList
  | _ => none

def textOfJson? : Json → Option String
  | .string text => some text
  | _ => none

def flagOfJson? : Json → Option Bool
  | .bool flag => some flag
  | _ => none

mutual
def toJson : AttributeValue → Json
  | .string text => .object [("S", .string text)]
  | .number text => .object [("N", .string text)]
  | .binary bytes => .object [("B", bytesJson bytes)]
  | .stringSet members => .object [("SS", .array (members.map .string))]
  | .numberSet members => .object [("NS", .array (members.map .string))]
  | .binarySet members => .object [("BS", .array (members.map bytesJson))]
  | .boolean flag => .object [("BOOL", .bool flag)]
  | .null flag => .object [("NULL", .bool flag)]
  | .list elements => .object [("L", .array (elementsJson elements))]
  | .map entries => .object [("M", .object (entriesJson entries))]

def elementsJson : List AttributeValue → List Json
  | [] => []
  | value :: rest => toJson value :: elementsJson rest

def entriesJson : List (String × AttributeValue) → List (String × Json)
  | [] => []
  | (name, value) :: rest => (name, toJson value) :: entriesJson rest
end

def membersOfJson? {α : Type} (member? : Json → Option α) : Nat → Json → Option (List α)
  | _ + 1, .array members => members.mapM member?
  | _, _ => none

def ofJson? : Nat → Json → Option AttributeValue
  | allowance + 1, .object [(kind, body)] =>
      match kind with
      | "S" => (textOfJson? body).map .string
      | "N" => (textOfJson? body).map .number
      | "B" => (bytesOfJson? body).map .binary
      | "SS" => (membersOfJson? textOfJson? allowance body).map .stringSet
      | "NS" => (membersOfJson? textOfJson? allowance body).map .numberSet
      | "BS" => (membersOfJson? bytesOfJson? allowance body).map .binarySet
      | "BOOL" => (flagOfJson? body).map .boolean
      | "NULL" => (flagOfJson? body).map .null
      | "L" =>
          match allowance, body with
          | inner + 1, .array elements => (elements.mapM (ofJson? inner)).map .list
          | _, _ => none
      | "M" =>
          match allowance, body with
          | inner + 1, .object members =>
              (members.mapM fun member =>
                (ofJson? inner member.2).map fun value => (member.1, value)).map
                  fun entries => .map (Dict.ofList entries)
          | _, _ => none
      | _ => none
  | _, _ => none

def decoder : Decoder AttributeValue := ofJson?

end AttributeValue

namespace Item

def toJson (item : Item) : Json :=
  .object (AttributeValue.entriesJson item)

def decoder : Decoder Item := Decoder.dict AttributeValue.ofJson?

end Item
end ItemStore
