import ItemStore.Text.Base64

/-!
Bytes are decoded from their digits as they were, in both variants of the code.
-/

namespace ItemStore.Text.Base64

def Lawful (code : Base64) : Prop :=
  ∀ value < 64, code.value? (code.digit value) = some value ∧ code.digit value ≠ '='

theorem lawful_standard : standard.Lawful := by
  unfold Lawful
  decide

theorem lawful_urlSafe : urlSafe.Lawful := by
  unfold Lawful
  decide

variable {code : Base64}

theorem decodeOne_digits (lawful : code.Lawful) (a : UInt8) :
    code.decodeOne (code.digit (a.toNat / 4)) (code.digit (a.toNat % 4 * 16)) = some [a] := by
  have small := a.toNat_lt
  have first := (lawful (a.toNat / 4) (by omega)).1
  have second := (lawful (a.toNat % 4 * 16) (by omega)).1
  have spare : a.toNat % 4 * 16 % 16 = 0 := by omega
  have byte : a.toNat / 4 * 4 + a.toNat % 4 * 16 / 16 = a.toNat := by omega
  simp only [decodeOne, first, second, spare, byte, Option.bind_eq_bind, Option.bind_some,
    if_true, UInt8.ofNat_toNat]

theorem decodeTwo_digits (lawful : code.Lawful) (a b : UInt8) :
    code.decodeTwo (code.digit (a.toNat / 4)) (code.digit (a.toNat % 4 * 16 + b.toNat / 16))
      (code.digit (b.toNat % 16 * 4)) = some [a, b] := by
  have smallA := a.toNat_lt
  have smallB := b.toNat_lt
  have first := (lawful (a.toNat / 4) (by omega)).1
  have second := (lawful (a.toNat % 4 * 16 + b.toNat / 16) (by omega)).1
  have third := (lawful (b.toNat % 16 * 4) (by omega)).1
  have spare : b.toNat % 16 * 4 % 4 = 0 := by omega
  have byteA : a.toNat / 4 * 4 + (a.toNat % 4 * 16 + b.toNat / 16) / 16 = a.toNat := by omega
  have byteB : (a.toNat % 4 * 16 + b.toNat / 16) % 16 * 16 + b.toNat % 16 * 4 / 4 = b.toNat := by
    omega
  simp only [decodeTwo, first, second, third, spare, byteA, byteB, Option.bind_eq_bind,
    Option.bind_some, if_true, UInt8.ofNat_toNat]

theorem decodeThree_digits (lawful : code.Lawful) (a b c : UInt8) :
    code.decodeThree (code.digit (a.toNat / 4)) (code.digit (a.toNat % 4 * 16 + b.toNat / 16))
      (code.digit (b.toNat % 16 * 4 + c.toNat / 64)) (code.digit (c.toNat % 64)) =
        some [a, b, c] := by
  have smallA := a.toNat_lt
  have smallB := b.toNat_lt
  have smallC := c.toNat_lt
  have first := (lawful (a.toNat / 4) (by omega)).1
  have second := (lawful (a.toNat % 4 * 16 + b.toNat / 16) (by omega)).1
  have third := (lawful (b.toNat % 16 * 4 + c.toNat / 64) (by omega)).1
  have fourth := (lawful (c.toNat % 64) (by omega)).1
  have byteA : a.toNat / 4 * 4 + (a.toNat % 4 * 16 + b.toNat / 16) / 16 = a.toNat := by omega
  have byteB : (a.toNat % 4 * 16 + b.toNat / 16) % 16 * 16 +
      (b.toNat % 16 * 4 + c.toNat / 64) / 4 = b.toNat := by omega
  have byteC : (b.toNat % 16 * 4 + c.toNat / 64) % 4 * 64 + c.toNat % 64 = c.toNat := by omega
  simp only [decodeThree, first, second, third, fourth, byteA, byteB, byteC, Option.bind_eq_bind,
    Option.bind_some, UInt8.ofNat_toNat]

theorem decode_group (lawful : code.Lawful) (a b c : UInt8) (rest : List Char) :
    code.decode (code.digit (a.toNat / 4) :: code.digit (a.toNat % 4 * 16 + b.toNat / 16) ::
      code.digit (b.toNat % 16 * 4 + c.toNat / 64) :: code.digit (c.toNat % 64) :: rest) =
        (code.decode rest).map ([a, b, c] ++ ·) := by
  have group := decodeThree_digits lawful a b c
  cases rest with
  | nil =>
      have digit : (code.digit (c.toNat % 64) == '=') = false := by
        simpa using (lawful (c.toNat % 64) (Nat.mod_lt _ (by decide))).2
      simp [decode, digit, group]
  | cons _ _ => simp [decode, group, Option.map_eq_bind, Function.comp_def]

theorem decode_encode (lawful : code.Lawful) :
    ∀ bytes : Bytes, code.decode (code.encode bytes) = some bytes
  | [] => rfl
  | [a] => by
      have one := decodeOne_digits lawful a
      cases padded : code.padded with
      | true => simp [encode, decode, padded, one]
      | false => simp [encode, decode, padded, one]
  | [a, b] => by
      have two := decodeTwo_digits lawful a b
      have digit : (code.digit (b.toNat % 16 * 4) == '=') = false := by
        simpa using (lawful (b.toNat % 16 * 4) (by omega)).2
      cases padded : code.padded with
      | true => simp [encode, decode, padded, digit, two]
      | false => simp [encode, decode, padded, two]
  | a :: b :: c :: rest => by
      rw [encode, decode_group lawful, decode_encode lawful rest]
      rfl

end ItemStore.Text.Base64
