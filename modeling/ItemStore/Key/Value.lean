import ItemStore.Number.Range
import ItemStore.Value.Basic

/-!
Key values: the texts, numbers and bytes that rows are found by. Numbers are compared by what they
denote; texts come before numbers and numbers before bytes.
-/

namespace ItemStore

inductive KeyValue where
  | string (text : String)
  | number (parsed : Number)
  | binary (bytes : Bytes)
deriving DecidableEq

namespace KeyValue

instance : Ord KeyValue where
  compare
    | .string a, .string b => compare a b
    | .string _, _ => .lt
    | .number _, .string _ => .gt
    | .number a, .number b => compare a b
    | .number _, .binary _ => .lt
    | .binary a, .binary b => compare a b
    | .binary _, _ => .gt

def ofAttribute? : AttributeValue → Option KeyValue
  | .string text => some (.string text)
  | .number text =>
      match Number.parse text with
      | .ok value => some (.number value)
      | .error _ => none
  | .binary bytes => some (.binary bytes)
  | _ => none

def toAttribute : KeyValue → AttributeValue
  | .string text => .string text
  | .number value => .number value.text
  | .binary bytes => .binary bytes

def shown : KeyValue → String
  | .string text => "S:" ++ text
  | .number value => "N:" ++ value.text
  | .binary bytes => "B:" ++ toString bytes.length ++ " bytes"

def sameType : KeyValue → KeyValue → Bool
  | .string _, .string _ | .number _, .number _ | .binary _, .binary _ => true
  | _, _ => false

def startsWith : KeyValue → KeyValue → Bool
  | .string text, .string start => start.toList.isPrefixOf text.toList
  | .binary bytes, .binary start => start.isPrefixOf bytes
  | _, _ => false

end KeyValue
end ItemStore
