import ItemStore.Json.Reader
import ItemStore.Json.Writer

/-!
A tree without numbers is read back from its text as it was, whatever characters its texts hold.
-/

namespace ItemStore
namespace Json

/-! Trees that hold no number and nothing unreadable, as those of stored items. -/

mutual
def Plain : Json → Prop
  | .number _ | .unreadable => False
  | .array elements => PlainElements elements
  | .object members => PlainMembers members
  | .null | .bool _ | .string _ => True

def PlainElements : List Json → Prop
  | [] => True
  | value :: rest => value.Plain ∧ PlainElements rest

def PlainMembers : List (String × Json) → Prop
  | [] => True
  | (_, value) :: rest => value.Plain ∧ PlainMembers rest
end

theorem hexValue?_hexDigit {value : Nat} (small : value < 16) :
    hexValue? (hexDigit value) = some value := by
  have all : ∀ value < 16, hexValue? (hexDigit value) = some value := by decide
  exact all value small

theorem readParts_escapeChar (done : List StringPart) (c : Char) (rest : List Char) :
    readParts done (escapeChar c ++ rest) = readParts (.char c :: done) rest := by
  unfold escapeChar
  split
  · simp_all [readParts, escaped?]
  split
  · simp_all [readParts, escaped?]
  split
  · simp_all [readParts, escaped?]
  split
  · simp_all [readParts, escaped?]
  split
  · simp_all [readParts, escaped?]
  split
  · simp_all [readParts, escaped?]
  split
  · simp_all [readParts, escaped?]
  split
  · rename_i control
    have high : hexValue? (hexDigit (c.toNat / 16)) = some (c.toNat / 16) :=
      hexValue?_hexDigit (by omega)
    have low : hexValue? (hexDigit (c.toNat % 16)) = some (c.toNat % 16) :=
      hexValue?_hexDigit (by omega)
    have unit : codeUnit? '0' '0' (hexDigit (c.toNat / 16)) (hexDigit (c.toNat % 16)) =
        some c.toNat := by
      have zero : hexValue? '0' = some 0 := rfl
      have joined : ((0 * 16 + 0) * 16 + c.toNat / 16) * 16 + c.toNat % 16 = c.toNat := by omega
      simp only [codeUnit?, zero, high, low, Option.bind_eq_bind, Option.bind_some, joined]
    have part : partOfUnit c.toNat = .char c := by
      have single : (isHighSurrogate c.toNat || isLowSurrogate c.toNat) = false := by
        simp only [isHighSurrogate, isLowSurrogate, Bool.or_eq_false_iff, Bool.and_eq_false_iff,
          decide_eq_false_iff_not]
        omega
      rw [partOfUnit, single, if_neg (by decide), Char.ofNat_toNat]
    simp only [List.cons_append, List.nil_append, readParts, unit, part]
  · rename_i quote backslash _ _ _ _ _ printable
    simp only [beq_iff_eq] at quote backslash
    simp [readParts, backslash, printable]

theorem readParts_flatMap (text : List Char) :
    ∀ (done : List StringPart) (rest : List Char),
      readParts done (text.flatMap escapeChar ++ '"' :: rest) =
        some (done.reverse ++ text.map .char, rest) := by
  induction text with
  | nil =>
      intro done rest
      simp [readParts]
  | cons c text ih =>
      intro done rest
      rw [List.flatMap_cons, List.append_assoc, readParts_escapeChar, ih]
      simp

theorem joinParts_chars (text : List Char) :
    ∀ done : List Char, joinParts done (text.map .char) = some (done.reverse ++ text) := by
  induction text with
  | nil =>
      intro done
      simp [joinParts]
  | cons c text ih =>
      intro done
      rw [List.map_cons, joinParts, ih]
      simp

theorem readText_flatMap (text rest : List Char) :
    readText (text.flatMap escapeChar ++ '"' :: rest) = some (some (String.ofList text), rest) := by
  simp [readText, readParts_flatMap, joinParts_chars]

theorem writeText_append (text rest : List Char) :
    writeText text ++ rest = '"' :: (text.flatMap escapeChar ++ '"' :: rest) := by
  simp [writeText]

theorem skipBlanks_cons {c : Char} (solid : isBlank c = false) (rest : List Char) :
    skipBlanks (c :: rest) = c :: rest := by
  simp [skipBlanks, solid]

theorem write_head {value : Json} (plain : value.Plain) :
    ∃ c rest, value.write = c :: rest ∧ isBlank c = false ∧ c ≠ ']' := by
  cases value with
  | null => exact ⟨_, _, rfl, rfl, by decide⟩
  | bool flag => cases flag <;> exact ⟨_, _, rfl, rfl, by decide⟩
  | string text => exact ⟨_, _, rfl, rfl, by decide⟩
  | array elements => exact ⟨_, _, rfl, rfl, by decide⟩
  | object members => exact ⟨_, _, rfl, rfl, by decide⟩
  | number written => exact plain.elim
  | unreadable => exact plain.elim

theorem readElements_last {fuel : Nat} {value : Json} {done : List Json} {text rest : List Char}
    (read : readValue fuel text = some (value, ']' :: rest)) :
    readElements (fuel + 1) done text = some (.array (value :: done).reverse, rest) := by
  simp only [readElements, read]
  rw [skipBlanks_cons rfl]
  rfl

theorem readElements_more {fuel : Nat} {value : Json} {done : List Json} {text rest : List Char}
    (read : readValue fuel text = some (value, ',' :: rest)) :
    readElements (fuel + 1) done text = readElements fuel (value :: done) rest := by
  simp only [readElements, read]
  rw [skipBlanks_cons rfl]
  rfl

theorem readMembers_last {fuel : Nat} {value : Json} {done : List (String × Json)}
    {text rest : List Char} (name : String)
    (read : readValue fuel text = some (value, '}' :: rest)) :
    readMembers (fuel + 1) done true (writeText name.toList ++ ':' :: text) =
      some (.object ((name, value) :: done).reverse, rest) := by
  rw [writeText_append]
  simp only [readMembers, skipBlanks_cons (show isBlank '"' = false from rfl), readText_flatMap,
    skipBlanks_cons (show isBlank ':' = false from rfl), read]
  simp [skipBlanks_cons (show isBlank '}' = false from rfl), String.ofList_toList]

theorem readMembers_more {fuel : Nat} {value : Json} {done : List (String × Json)}
    {text rest : List Char} (name : String)
    (read : readValue fuel text = some (value, ',' :: rest)) :
    readMembers (fuel + 1) done true (writeText name.toList ++ ':' :: text) =
      readMembers fuel ((name, value) :: done) true rest := by
  rw [writeText_append]
  simp only [readMembers, skipBlanks_cons (show isBlank '"' = false from rfl), readText_flatMap,
    skipBlanks_cons (show isBlank ':' = false from rfl), read]
  simp [skipBlanks_cons (show isBlank ',' = false from rfl), String.ofList_toList]

theorem readValue_array {fuel : Nat} {c : Char} {text : List Char} (solid : isBlank c = false)
    (other : c ≠ ']') :
    readValue (fuel + 1) ('[' :: c :: text) = readElements fuel [] (c :: text) := by
  rw [readValue, skipBlanks_cons rfl]
  simp only [skipBlanks_cons solid]
  split
  · rename_i bracket
    cases bracket
    exact absurd rfl other
  · rfl

theorem readValue_object {fuel : Nat} {text : List Char} :
    readValue (fuel + 1) ('{' :: '"' :: text) = readMembers fuel [] true ('"' :: text) := by
  rw [readValue, skipBlanks_cons rfl]
  simp only [skipBlanks_cons (show isBlank '"' = false from rfl)]
  rfl

/-! The reader goes down as the writer did. Its fuel need be no more than the text is long. -/

mutual
theorem readValue_write : ∀ (value : Json) (fuel : Nat) (rest : List Char), value.Plain →
    value.write.length ≤ fuel → readValue fuel (value.write ++ rest) = some (value, rest)
  | value, 0, rest, plain, enough => by
      obtain ⟨c, tail, head, _⟩ := write_head plain
      simp [head] at enough
  | .null, fuel + 1, rest, _, _ => by simp [readValue, write, skipBlanks, isBlank]
  | .bool true, fuel + 1, rest, _, _ => by simp [readValue, write, skipBlanks, isBlank]
  | .bool false, fuel + 1, rest, _, _ => by simp [readValue, write, skipBlanks, isBlank]
  | .string text, fuel + 1, rest, _, _ => by
      rw [write, writeText_append, readValue, skipBlanks_cons rfl]
      simp only [readText_flatMap, String.ofList_toList]
  | .array [], fuel + 1, rest, _, _ => by
      simp [readValue, write, writeElements, skipBlanks, isBlank]
  | .array (value :: others), fuel + 1, rest, plain, enough => by
      have elements := readElements_write (value :: others) fuel [] rest plain (by simp)
        (by simpa [write] using enough)
      obtain ⟨c, first, head, solid, other⟩ := write_head plain.1
      have starts : ∃ tail, writeElements (value :: others) ++ rest = c :: tail := by
        cases others with
        | nil => exact ⟨_, by rw [writeElements, head]; rfl⟩
        | cons next others => exact ⟨_, by rw [writeElements, head]; rfl; simp⟩
      obtain ⟨tail, starts⟩ := starts
      rw [starts] at elements
      rw [write, List.cons_append, starts, readValue_array solid other, elements]
      rfl
  | .object [], fuel + 1, rest, _, _ => by
      simp [readValue, write, writeMembers, skipBlanks, isBlank]
  | .object ((name, value) :: others), fuel + 1, rest, plain, enough => by
      have members := readMembers_write ((name, value) :: others) fuel [] rest plain (by simp)
        (by simpa [write] using enough)
      have starts : ∃ tail, writeMembers ((name, value) :: others) ++ rest = '"' :: tail := by
        cases others with
        | nil => exact ⟨_, rfl⟩
        | cons next others => exact ⟨_, by rw [writeMembers]; rfl; simp⟩
      obtain ⟨tail, starts⟩ := starts
      rw [starts] at members
      rw [write, List.cons_append, starts, readValue_object, members]
      rfl
  | .number _, _ + 1, _, plain, _ => plain.elim
  | .unreadable, _ + 1, _, plain, _ => plain.elim

theorem readElements_write : ∀ (elements : List Json) (fuel : Nat) (done : List Json)
    (rest : List Char), PlainElements elements → elements ≠ [] →
    (writeElements elements).length ≤ fuel →
    readElements fuel done (writeElements elements ++ rest) =
      some (.array (done.reverse ++ elements), rest)
  | [], _, _, _, _, nonempty, _ => absurd rfl nonempty
  | [value], 0, _, _, _, _, enough => by simp [writeElements] at enough
  | value :: _ :: _, 0, _, _, _, _, enough => by simp [writeElements] at enough
  | [value], fuel + 1, done, rest, plain, _, enough => by
      have first := readValue_write value fuel (']' :: rest) plain.1
        (by simpa [writeElements] using enough)
      rw [writeElements, List.append_assoc, List.singleton_append, readElements_last first]
      simp
  | value :: next :: others, fuel + 1, done, rest, plain, _, enough => by
      have sizes : value.write.length + (writeElements (next :: others)).length ≤ fuel := by
        simp only [writeElements, List.length_append, List.length_cons] at enough
        omega
      have first := readValue_write value fuel (',' :: (writeElements (next :: others) ++ rest))
        plain.1 (by omega)
      have later := readElements_write (next :: others) fuel (value :: done) rest plain.2 (by simp)
        (by omega)
      rw [writeElements, List.append_assoc, List.cons_append, readElements_more first, later]
      · simp
      · simp

theorem readMembers_write : ∀ (members : List (String × Json)) (fuel : Nat)
    (done : List (String × Json)) (rest : List Char), PlainMembers members → members ≠ [] →
    (writeMembers members).length ≤ fuel →
    readMembers fuel done true (writeMembers members ++ rest) =
      some (.object (done.reverse ++ members), rest)
  | [], _, _, _, _, nonempty, _ => absurd rfl nonempty
  | [(name, value)], 0, _, _, _, _, enough => by simp [writeMembers] at enough
  | (name, value) :: _ :: _, 0, _, _, _, _, enough => by simp [writeMembers] at enough
  | [(name, value)], fuel + 1, done, rest, plain, _, enough => by
      have sizes : value.write.length ≤ fuel := by
        simp only [writeMembers, List.length_append, List.length_cons] at enough
        omega
      have first := readValue_write value fuel ('}' :: rest) plain.1 sizes
      rw [writeMembers, List.append_assoc, List.cons_append, List.append_assoc,
        List.singleton_append, readMembers_last name first]
      simp
  | (name, value) :: next :: others, fuel + 1, done, rest, plain, _, enough => by
      have sizes : value.write.length + (writeMembers (next :: others)).length ≤ fuel := by
        simp only [writeMembers, List.length_append, List.length_cons] at enough
        omega
      have first := readValue_write value fuel (',' :: (writeMembers (next :: others) ++ rest))
        plain.1 (by omega)
      have later := readMembers_write (next :: others) fuel ((name, value) :: done) rest plain.2
        (by simp) (by omega)
      rw [writeMembers, List.append_assoc, List.cons_append, List.append_assoc, List.cons_append,
        readMembers_more name first, later]
      · simp
      · simp
end

theorem read?_write {value : Json} (plain : value.Plain) : read? value.write = some value := by
  have read := readValue_write value (2 * value.write.length + 2) [] plain (by omega)
  rw [List.append_nil] at read
  simp [read?, read, skipBlanks]

theorem ofText?_text {value : Json} (plain : value.Plain) : ofText? value.text = some value := by
  rw [ofText?, text, String.toList_ofList, read?_write plain]

end Json
end ItemStore
