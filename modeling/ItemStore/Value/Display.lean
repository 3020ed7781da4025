import ItemStore.Text.Invisible
import ItemStore.Value.Basic

/-!
How a value is shown in messages: its type, and its text where that is short. Members of a set of
texts are shown in quotes.
-/

namespace ItemStore
namespace Text

def shownChar (c : Char) : List Char :=
  if c == '"' then ['\\', '"']
  else if c == '\\' then ['\\', '\\']
  else if c == '\n' then ['\\', 'n']
  else if c == '\x0d' then ['\\', 'r']
  else if c == '\t' then ['\\', 't']
  else if c == '\x00' then ['\\', '0']
  else if isInvisible c then
    ['\\', 'u', '\x7b'] ++ Nat.toDigits 16 c.toNat ++ ['\x7d']
  else [c]

def shown (text : String) : List Char :=
  '"' :: (text.toList.flatMap shownChar ++ ['"'])

end Text

namespace AttributeValue

def shownMembers (members : List String) : String :=
  "[" ++ ", ".intercalate (members.map fun member => String.ofList (Text.shown member)) ++ "]"

def shownBody : AttributeValue → String
  | .string text => text
  | .number text => text
  | .binary bytes => toString bytes.length ++ " bytes"
  | .stringSet members => shownMembers members
  | .numberSet members => shownMembers members
  | .binarySet members => toString members.length ++ " items"
  | .boolean flag => if flag then "true" else "false"
  | .null flag => if flag then "true" else "false"
  | .list elements => toString elements.length ++ " items"
  | .map entries => toString entries.length ++ " keys"

def shown (value : AttributeValue) : String :=
  "\x7b" ++ value.descriptor ++ ": " ++ value.shownBody ++ "\x7d"

end AttributeValue
end ItemStore
