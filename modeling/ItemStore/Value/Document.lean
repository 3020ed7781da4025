import ItemStore.Value.Json
import ItemStore.Json.Reader
import ItemStore.Json.Writer

/-!
Items are stored as documents: their compact JSON text. Any item can be written, but a document
whose arrays and objects nest too deep cannot be read back.
-/

namespace ItemStore

abbrev Document := String

namespace Document

def ofItem (item : Item) : Document :=
  item.toJson.text

def toItem? (document : Document) : Option Item := do
  Item.decoder.run (← Json.ofText? document)

def size (document : Document) : Nat :=
  document.utf8ByteSize

end Document

namespace Item

def size (item : Item) : Nat :=
  (Document.ofItem item).size

end Item
end ItemStore
