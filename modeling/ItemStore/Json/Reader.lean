import ItemStore.Json.Basic
import ItemStore.Text.Utf8

/-!
Reading JSON text. The reader follows the grammar strictly: nothing but blanks around the value, no
control character in a string, no leading zero. It does not limit nesting, which is left to whoever
takes the tree apart.
-/

namespace ItemStore
namespace Json

def isBlank (c : Char) : Bool :=
  c == ' ' || c == '\n' || c == '\t' || c == '\x0d'

def skipBlanks (text : List Char) : List Char :=
  text.dropWhile isBlank

def hexValue? (c : Char) : Option Nat :=
  if '0' ≤ c ∧ c ≤ '9' then some (c.toNat - 48)
  else if 'a' ≤ c ∧ c ≤ 'f' then some (c.toNat - 87)
  else if 'A' ≤ c ∧ c ≤ 'F' then some (c.toNat - 55)
  else none

def codeUnit? (a b c d : Char) : Option Nat := do
  let a ← hexValue? a
  let b ← hexValue? b
  let c ← hexValue? c
  let d ← hexValue? d
  some (((a * 16 + b) * 16 + c) * 16 + d)

def isHighSurrogate (unit : Nat) : Bool :=
  0xD800 ≤ unit && unit < 0xDC00

def isLowSurrogate (unit : Nat) : Bool :=
  0xDC00 ≤ unit && unit < 0xE000

def escaped? : Char → Option Char
  | '"' => some '"'
  | '\\' => some '\\'
  | '/' => some '/'
  | 'b' => some '\x08'
  | 'f' => some '\x0c'
  | 'n' => some '\n'
  | 'r' => some '\x0d'
  | 't' => some '\t'
  | _ => none

inductive StringPart where
  | char (c : Char)
  | half (unit : Nat)
deriving DecidableEq

def partOfUnit (unit : Nat) : StringPart :=
  if isHighSurrogate unit || isLowSurrogate unit then .half unit else .char (Char.ofNat unit)

def readParts (done : List StringPart) : List Char → Option (List StringPart × List Char)
  | [] => none
  | '"' :: rest => some (done.reverse, rest)
  | '\\' :: 'u' :: a :: b :: c :: d :: rest =>
      match codeUnit? a b c d with
      | none => none
      | some unit => readParts (partOfUnit unit :: done) rest
  | '\\' :: c :: rest =>
      match escaped? c with
      | none => none
      | some c => readParts (.char c :: done) rest
  | c :: rest => if c.toNat < 0x20 then none else readParts (.char c :: done) rest

def joinParts (done : List Char) : List StringPart → Option (List Char)
  | [] => some done.reverse
  | .char c :: rest => joinParts (c :: done) rest
  | .half high :: .half low :: rest =>
      if isHighSurrogate high && isLowSurrogate low then
        joinParts (Char.ofNat (0x10000 + (high - 0xD800) * 0x400 + (low - 0xDC00)) :: done) rest
      else none
  | .half _ :: _ => none

def readText (text : List Char) : Option (Option String × List Char) :=
  match readParts [] text with
  | none => none
  | some (parts, rest) => some ((joinParts [] parts).map String.ofList, rest)

def readDigits? (text : List Char) : Option (List Char × List Char) :=
  let digits := text.takeWhile Char.isDigit
  if digits.isEmpty then none else some (digits, text.dropWhile Char.isDigit)

def readFraction? : List Char → Option (Option (List Char) × List Char)
  | '.' :: text => (readDigits? text).map fun (digits, rest) => (some digits, rest)
  | text => some (none, text)

def readExponent? (text : List Char) : Option (Option (Bool × List Char) × List Char) :=
  match text with
  | c :: rest =>
      if c == 'e' || c == 'E' then
        let (negative, digits) := match rest with
          | '-' :: digits => (true, digits)
          | '+' :: digits => (false, digits)
          | digits => (false, digits)
        (readDigits? digits).map fun (digits, rest) => (some (negative, digits), rest)
      else some (none, text)
  | [] => some (none, [])

def readNumber? (text : List Char) : Option (JsonNumber × List Char) := do
  let (negative, body) := match text with
    | '-' :: body => (true, body)
    | body => (false, body)
  let (whole, rest) ← readDigits? body
  if whole.head? == some '0' && whole.length != 1 then none
  else
    let (fraction, rest) ← readFraction? rest
    let (exponent, rest) ← readExponent? rest
    some (⟨negative, whole, fraction, exponent⟩, rest)

mutual
def readValue : Nat → List Char → Option (Json × List Char)
  | 0, _ => none
  | fuel + 1, text =>
      match skipBlanks text with
      | '[' :: rest =>
          match skipBlanks rest with
          | ']' :: rest => some (.array [], rest)
          | rest => readElements fuel [] rest
      | '{' :: rest =>
          match skipBlanks rest with
          | '}' :: rest => some (.object [], rest)
          | rest => readMembers fuel [] true rest
      | '"' :: rest =>
          match readText rest with
          | none => none
          | some (none, rest) => some (.unreadable, rest)
          | some (some text, rest) => some (.string text, rest)
      | 'n' :: 'u' :: 'l' :: 'l' :: rest => some (.null, rest)
      | 't' :: 'r' :: 'u' :: 'e' :: rest => some (.bool true, rest)
      | 'f' :: 'a' :: 'l' :: 's' :: 'e' :: rest => some (.bool false, rest)
      | rest =>
          match readNumber? rest with
          | none => none
          | some (written, rest) => some (.number written, rest)

def readElements : Nat → List Json → List Char → Option (Json × List Char)
  | 0, _, _ => none
  | fuel + 1, done, text =>
      match readValue fuel text with
      | none => none
      | some (value, rest) =>
          match skipBlanks rest with
          | ',' :: rest => readElements fuel (value :: done) rest
          | ']' :: rest => some (.array (value :: done).reverse, rest)
          | _ => none

def readMembers : Nat → List (String × Json) → Bool → List Char → Option (Json × List Char)
  | 0, _, _, _ => none
  | fuel + 1, done, readable, text =>
      match skipBlanks text with
      | '"' :: rest =>
          match readText rest with
          | none => none
          | some (name, rest) =>
              match skipBlanks rest with
              | ':' :: rest =>
                  match readValue fuel rest with
                  | none => none
                  | some (value, rest) =>
                      let done := (name.getD "", value) :: done
                      let readable := readable && name.isSome
                      match skipBlanks rest with
                      | ',' :: rest => readMembers fuel done readable rest
                      | '}' :: rest =>
                          some (if readable then .object done.reverse else .unreadable, rest)
                      | _ => none
              | _ => none
      | _ => none
end

def read? (text : List Char) : Option Json :=
  match readValue (2 * text.length + 2) text with
  | some (value, rest) => if (skipBlanks rest).isEmpty then some value else none
  | none => none

def ofText? (text : String) : Option Json :=
  read? text.toList

/-- What is read for a byte that is part of no character. In a string it is half of a surrogate pair
that never meets the other half, so the string can be passed over but has no text. It can stand
neither in an escape nor outside of strings. -/
def strayByte : List Char :=
  ['\ufffd', '\\', 'u', 'd', 'c', '0', '0']

def ofBytes? (bytes : Bytes) : Option Json :=
  read? (Text.charsOfBytes strayByte 0 bytes)

end Json
end ItemStore
