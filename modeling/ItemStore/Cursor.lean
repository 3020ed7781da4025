import ItemStore.Json.Decoder
import ItemStore.Json.Reader
import ItemStore.Json.Writer
import ItemStore.Key.Row
import ItemStore.Value.Json

/-!
Cursors name the row after which a read goes on. A cursor is a token: the base64 of a small JSON
record of the space and the key.
-/

namespace ItemStore

inductive CursorError where
  | invalid
  | otherSpace
deriving DecidableEq, Repr

def CursorError.message : CursorError → String
  | .invalid => "The provided starting key is invalid"
  | .otherSpace => "The provided starting key does not belong to this table or index"

namespace Cursor

def toJson (space : Space) (key : RowKey) : Json :=
  .object <|
    ("t", .string space.table) ::
      (space.index.toList.map fun index => ("i", .string index)) ++
      [("h", key.hash.toAttribute.toJson),
        ("s", .array (key.sort.map fun value => value.toAttribute.toJson))]

def encode (space : Space) (key : RowKey) : String :=
  String.ofList (Text.Base64.urlSafe.encode (toJson space key).text.toUTF8.toList)

def decoder : Decoder (Space × AttributeValue × List AttributeValue) := fun allowance value => do
  let record ← Record.open? ["t", "i", "h", "s"] allowance value
  let table ← record.required "t" Decoder.text
  let index ← record.optional "i" Decoder.text
  let hash ← record.required "h" AttributeValue.decoder
  let sort ← record.required "s" (Decoder.list AttributeValue.decoder)
  return (⟨table, index⟩, hash, sort)

def record? (token : String) : Option Json :=
  (Text.Base64.urlSafe.decode token.toList).bind Json.ofBytes?

def decode (space : Space) (token : String) : Except CursorError RowKey :=
  match (record? token).bind decoder.run with
  | none => .error .invalid
  | some (named, hash, sort) =>
      if named = space then
        match KeyValue.ofAttribute? hash, sort.mapM KeyValue.ofAttribute? with
        | some hash, some sort => .ok ⟨hash, sort⟩
        | _, _ => .error .invalid
      else .error .otherSpace

end Cursor
end ItemStore
