import ItemStore.Json.Basic

/-!
The compact text of a tree: no blanks, and no character escaped but quotes, backslashes and control
characters.
-/

namespace ItemStore
namespace Json

def hexDigit (value : Nat) : Char :=
  if value < 10 then Char.ofNat (48 + value) else Char.ofNat (87 + value)

def escapeChar (c : Char) : List Char :=
  if c == '"' then ['\\', '"']
  else if c == '\\' then ['\\', '\\']
  else if c == '\x08' then ['\\', 'b']
  else if c == '\t' then ['\\', 't']
  else if c == '\n' then ['\\', 'n']
  else if c == '\x0c' then ['\\', 'f']
  else if c == '\x0d' then ['\\', 'r']
  else if c.toNat < 0x20 then
    ['\\', 'u', '0', '0', hexDigit (c.toNat / 16), hexDigit (c.toNat % 16)]
  else [c]

def writeText (text : List Char) : List Char :=
  '"' :: (text.flatMap escapeChar ++ ['"'])

def writeNumber (number : JsonNumber) : List Char :=
  (if number.negative then ['-'] else []) ++ number.whole ++
    (match number.fraction with
      | none => []
      | some digits => '.' :: digits) ++
    match number.exponent with
      | none => []
      | some (true, digits) => 'e' :: '-' :: digits
      | some (false, digits) => 'e' :: digits

mutual
def write : Json → List Char
  | .null => ['n', 'u', 'l', 'l']
  | .bool true => ['t', 'r', 'u', 'e']
  | .bool false => ['f', 'a', 'l', 's', 'e']
  | .number written => writeNumber written
  | .string text => writeText text.toList
  | .array elements => '[' :: writeElements elements
  | .object members => '{' :: writeMembers members
  | .unreadable => ['n', 'u', 'l', 'l']

def writeElements : List Json → List Char
  | [] => [']']
  | [value] => write value ++ [']']
  | value :: rest => write value ++ ',' :: writeElements rest

def writeMembers : List (String × Json) → List Char
  | [] => ['}']
  | [(name, value)] => writeText name.toList ++ ':' :: (write value ++ ['}'])
  | (name, value) :: rest =>
      writeText name.toList ++ ':' :: (write value ++ ',' :: writeMembers rest)
end

def text (value : Json) : String :=
  String.ofList value.write

end Json
end ItemStore
