import ItemStore.Value.Basic
import ItemStore.Number.Range

/-!
When two values are the same: numbers by what they denote, sets as collections without order, maps
by name, lists in order. Beside it stands the sequence of words that a hash of a value is taken
from, so that equal values have equal words.
-/

namespace ItemStore
namespace AttributeValue

def equalNumbers (a b : String) : Bool :=
  match Number.compareTexts? a b with
  | some order => order == .eq
  | none => a == b

mutual
def equal : AttributeValue → AttributeValue → Bool
  | .string a, .string b => a == b
  | .number a, .number b => equalNumbers a b
  | .binary a, .binary b => a == b
  | .stringSet a, .stringSet b => a.isPerm b
  | .numberSet a, .numberSet b => (a.map Number.canonical).isPerm (b.map Number.canonical)
  | .binarySet a, .binarySet b => a.isPerm b
  | .boolean a, .boolean b => a == b
  | .null a, .null b => a == b
  | .list a, .list b => equalElements a b
  | .map a, .map b => equalEntries a b
  | _, _ => false

def equalElements : List AttributeValue → List AttributeValue → Bool
  | [], [] => true
  | a :: as, b :: bs => equal a b && equalElements as bs
  | _, _ => false

def equalEntries : List (String × AttributeValue) → List (String × AttributeValue) → Bool
  | [], [] => true
  | (name, a) :: as, (other, b) :: bs => name == other && (equal a b && equalEntries as bs)
  | _, _ => false
end

instance : BEq AttributeValue := ⟨equal⟩

inductive HashWord where
  | kind (descriptor : String)
  | size (count : Nat)
  | text (text : String)
  | bytes (bytes : Bytes)
  | flag (flag : Bool)
deriving DecidableEq

mutual
def hashWords : AttributeValue → List HashWord
  | .string text => [.kind "S", .text text]
  | .number text => [.kind "N", .text (Number.canonical text)]
  | .binary bytes => [.kind "B", .bytes bytes]
  | .stringSet members =>
      .kind "SS" :: .size members.length :: members.mergeSort.map .text
  | .numberSet members =>
      .kind "NS" :: .size members.length ::
        ((members.map Number.canonical).mergeSort).map .text
  | .binarySet members =>
      .kind "BS" :: .size members.length :: members.mergeSort.map .bytes
  | .boolean flag => [.kind "BOOL", .flag flag]
  | .null flag => [.kind "NULL", .flag flag]
  | .list elements => .kind "L" :: .size elements.length :: elementWords elements
  | .map entries =>
      .kind "M" :: ((entryWords entries).mergeSort fun a b => a.1 ≤ b.1).flatMap fun entry =>
        .text entry.1 :: entry.2

def elementWords : List AttributeValue → List HashWord
  | [] => []
  | value :: rest => hashWords value ++ elementWords rest

def entryWords : List (String × AttributeValue) → List (String × List HashWord)
  | [] => []
  | (name, value) :: rest => (name, hashWords value) :: entryWords rest
end

end AttributeValue

namespace Item

def equal (a b : Item) : Bool :=
  AttributeValue.equalEntries a b

end Item
end ItemStore
