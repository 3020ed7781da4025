import ItemStore.Key.Row
import ItemStore.Table.Schema

/-!
The key of an item in its table, and maps that are keys and nothing else.
-/

namespace ItemStore

inductive KeyError where
  | emptyValue (name : String)
  | invalidNumber (name : String)
  | wrongType (name descriptor : String)
  | missing (name : String)
  | wrongAttributes
deriving DecidableEq, Repr

def KeyError.message : KeyError → String
  | .emptyValue name =>
      "One or more parameter values are not valid. The AttributeValue for a key attribute " ++
        "cannot contain an empty string value. Key: " ++ name
  | .invalidNumber name =>
      "One or more parameter values were invalid: Invalid number for key attribute " ++ name
  | .wrongType name descriptor =>
      "One or more parameter values were invalid: Type mismatch for key " ++ name ++
        ", key attributes must be of type S, N or B, found " ++ descriptor
  | .missing name =>
      "One or more parameter values were invalid: Missing the key " ++ name ++ " in the item"
  | .wrongAttributes => "The provided key element does not match the schema"

def KeyValue.ofNamed (name : String) (value : AttributeValue) : Except KeyError KeyValue :=
  match value with
  | .string text => if text.isEmpty then .error (.emptyValue name) else .ok (.string text)
  | .binary bytes => if bytes.isEmpty then .error (.emptyValue name) else .ok (.binary bytes)
  | .number text =>
      match Number.parse text with
      | .ok parsed => .ok (.number parsed)
      | .error _ => .error (.invalidNumber name)
  | other => .error (.wrongType name other.descriptor)

namespace Table

def keyPart (item : Item) (name : String) : Except KeyError KeyValue :=
  match item.get? name with
  | some value => KeyValue.ofNamed name value
  | none => .error (.missing name)

def rowKey (table : Table) (item : Item) : Except KeyError RowKey := do
  let hash ← keyPart item table.hashKey
  match table.sortKey with
  | none => return ⟨hash, []⟩
  | some name => return ⟨hash, [← keyPart item name]⟩

def checkKeyMap (table : Table) (key : Item) : Except KeyError Unit :=
  if key.length == table.keyNames.length && key.keys.all table.isKeyAttribute then .ok ()
  else .error .wrongAttributes

def keyAttributes (table : Table) (item : Item) : Item :=
  item.filter fun entry => table.isKeyAttribute entry.1

end Table
end ItemStore
