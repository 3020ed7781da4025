import ItemStore.Text.Base64

/-!
Characters read from bytes that need not be well formed as UTF-8. Reading is from the left, and a
byte that no character begins with is passed alone, so what follows it is read as if it stood first.
-/

namespace ItemStore.Text

def leadingChar? (bytes : Bytes) : Option Char :=
  (bytes.take 4).toByteArray.utf8DecodeChar? 0

/-- The characters of some bytes without the first `passed` of them, with the text `stray` for each
byte that is part of no character. -/
def charsOfBytes (stray : List Char) : Nat → Bytes → List Char
  | _, [] => []
  | passed + 1, _ :: rest => charsOfBytes stray passed rest
  | 0, first :: rest =>
      match leadingChar? (first :: rest) with
      | some c => c :: charsOfBytes stray (c.utf8Size - 1) rest
      | none => stray ++ charsOfBytes stray 0 rest

theorem charsOfBytes_append (stray : List Char) (passed rest : Bytes) :
    charsOfBytes stray passed.length (passed ++ rest) = charsOfBytes stray 0 rest := by
  induction passed with
  | nil => rfl
  | cons first passed ih => exact ih

theorem leadingChar?_encoded (c : Char) (rest : Bytes) :
    leadingChar? (String.utf8EncodeChar c ++ rest) = some c := by
  have short : (String.utf8EncodeChar c).length ≤ 4 := by
    rw [String.length_utf8EncodeChar]
    exact c.utf8Size_le_four
  rw [leadingChar?, List.take_append, List.take_of_length_le short, List.toByteArray_append]
  exact ByteArray.utf8DecodeChar?_utf8EncodeChar_append

theorem charsOfBytes_encoded (stray text : List Char) :
    charsOfBytes stray 0 (text.flatMap String.utf8EncodeChar) = text := by
  induction text with
  | nil => rfl
  | cons c text ih =>
      have leading := leadingChar?_encoded c (text.flatMap String.utf8EncodeChar)
      have size : (String.utf8EncodeChar c).length = c.utf8Size := String.length_utf8EncodeChar c
      rw [List.flatMap_cons]
      match encoded : String.utf8EncodeChar c with
      | [] =>
          rw [encoded] at size
          exact absurd size.symm (Nat.ne_of_gt c.utf8Size_pos)
      | first :: passed =>
          rw [encoded] at leading size
          have rest : c.utf8Size - 1 = passed.length := by
            rw [← size]
            rfl
          rw [List.cons_append] at leading ⊢
          simp only [charsOfBytes, leading, rest, charsOfBytes_append, ih]

end ItemStore.Text
