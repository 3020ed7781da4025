import ItemStore.Dict
import ItemStore.Text.Base64

/-!
Attribute values and items. A number keeps the text it was written with, and a set keeps its
members in the order and number they came in.
-/

namespace ItemStore

inductive AttributeValue where
  | string (text : String)
  | number (text : String)
  | binary (bytes : Bytes)
  | stringSet (members : List String)
  | numberSet (members : List String)
  | binarySet (members : List Bytes)
  | boolean (flag : Bool)
  | null (flag : Bool)
  | list (elements : List AttributeValue)
  | map (entries : List (String × AttributeValue))

instance : Inhabited AttributeValue := ⟨.null true⟩

abbrev Item := Dict String AttributeValue

namespace AttributeValue

def descriptor : AttributeValue → String
  | .string _ => "S"
  | .number _ => "N"
  | .binary _ => "B"
  | .stringSet _ => "SS"
  | .numberSet _ => "NS"
  | .binarySet _ => "BS"
  | .boolean _ => "BOOL"
  | .null _ => "NULL"
  | .list _ => "L"
  | .map _ => "M"

def descriptors : List String :=
  ["S", "SS", "N", "NS", "B", "BS", "BOOL", "NULL", "L", "M"]

def isString : AttributeValue → Bool
  | .string _ => true
  | _ => false

def isNumber : AttributeValue → Bool
  | .number _ => true
  | _ => false

def isSet : AttributeValue → Bool
  | .stringSet _ | .numberSet _ | .binarySet _ => true
  | _ => false

def isKeyType : AttributeValue → Bool
  | .string _ | .number _ | .binary _ => true
  | _ => false

def text? : AttributeValue → Option String
  | .string text => some text
  | _ => none

def numberText? : AttributeValue → Option String
  | .number text => some text
  | _ => none

def elements? : AttributeValue → Option (List AttributeValue)
  | .list elements => some elements
  | _ => none

def entries? : AttributeValue → Option Item
  | .map entries => some entries
  | _ => none

end AttributeValue

/-! Every map, at every depth, binds each name once and in ascending order. -/

mutual
def AttributeValue.Ordered : AttributeValue → Prop
  | .list elements => AttributeValue.OrderedElements elements
  | .map entries => Dict.Ascending entries ∧ AttributeValue.OrderedEntries entries
  | _ => True

def AttributeValue.OrderedElements : List AttributeValue → Prop
  | [] => True
  | value :: rest => value.Ordered ∧ AttributeValue.OrderedElements rest

def AttributeValue.OrderedEntries : List (String × AttributeValue) → Prop
  | [] => True
  | (_, value) :: rest => value.Ordered ∧ AttributeValue.OrderedEntries rest
end

def Item.Ordered (item : Item) : Prop :=
  Dict.Ascending item ∧ AttributeValue.OrderedEntries item

end ItemStore
