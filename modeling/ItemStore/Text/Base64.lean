/-!
Base64: three bytes as four digits of six bits. A final group of one or two bytes is written with
two or three digits whose unused bits are zero, and filled up with `=` where the variant pads.
-/

namespace ItemStore

abbrev Bytes := List UInt8

namespace Text

structure Base64 where
  digit62 : Char
  digit63 : Char
  padded : Bool

namespace Base64

def standard : Base64 := ⟨'+', '/', true⟩

def urlSafe : Base64 := ⟨'-', '_', false⟩

def digit (code : Base64) (value : Nat) : Char :=
  if value < 26 then Char.ofNat (65 + value)
  else if value < 52 then Char.ofNat (71 + value)
  else if value < 62 then Char.ofNat (value - 4)
  else if value = 62 then code.digit62
  else code.digit63

def value? (code : Base64) (c : Char) : Option Nat :=
  if 'A' ≤ c ∧ c ≤ 'Z' then some (c.toNat - 65)
  else if 'a' ≤ c ∧ c ≤ 'z' then some (c.toNat - 71)
  else if '0' ≤ c ∧ c ≤ '9' then some (c.toNat + 4)
  else if c = code.digit62 then some 62
  else if c = code.digit63 then some 63
  else none

def encode (code : Base64) : Bytes → List Char
  | a :: b :: c :: rest =>
      code.digit (a.toNat / 4) :: code.digit (a.toNat % 4 * 16 + b.toNat / 16) ::
        code.digit (b.toNat % 16 * 4 + c.toNat / 64) :: code.digit (c.toNat % 64) ::
        encode code rest
  | [a, b] =>
      [code.digit (a.toNat / 4), code.digit (a.toNat % 4 * 16 + b.toNat / 16),
        code.digit (b.toNat % 16 * 4)] ++ if code.padded then ['='] else []
  | [a] =>
      [code.digit (a.toNat / 4), code.digit (a.toNat % 4 * 16)] ++
        if code.padded then ['=', '='] else []
  | [] => []

def decodeOne (code : Base64) (p q : Char) : Option Bytes := do
  let p ← code.value? p
  let q ← code.value? q
  if q % 16 = 0 then some [UInt8.ofNat (p * 4 + q / 16)] else none

def decodeTwo (code : Base64) (p q r : Char) : Option Bytes := do
  let p ← code.value? p
  let q ← code.value? q
  let r ← code.value? r
  if r % 4 = 0 then
    some [UInt8.ofNat (p * 4 + q / 16), UInt8.ofNat (q % 16 * 16 + r / 4)]
  else none

def decodeThree (code : Base64) (p q r s : Char) : Option Bytes := do
  let p ← code.value? p
  let q ← code.value? q
  let r ← code.value? r
  let s ← code.value? s
  some [UInt8.ofNat (p * 4 + q / 16), UInt8.ofNat (q % 16 * 16 + r / 4),
    UInt8.ofNat (r % 4 * 64 + s)]

def decode (code : Base64) : List Char → Option Bytes
  | [] => some []
  | [_] => none
  | [p, q] => if code.padded then none else code.decodeOne p q
  | [p, q, r] => if code.padded then none else code.decodeTwo p q r
  | [p, q, r, s] =>
      if code.padded && s == '=' then
        if r == '=' then code.decodeOne p q else code.decodeTwo p q r
      else code.decodeThree p q r s
  | p :: q :: r :: s :: rest => do
      let group ← code.decodeThree p q r s
      some (group ++ (← decode code rest))

end Base64
end Text
end ItemStore
