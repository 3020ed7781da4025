import ItemStore.Dict.Lemmas
import ItemStore.Proofs.Json.RoundTrip
import ItemStore.Proofs.Text.Base64
import ItemStore.Value.Document

/-!
Values and items are read back as they were written, spelling and order included, as long as they
nest no deeper than the decoder goes. Deeper ones are not read at all, rather than read as others.
-/

namespace ItemStore

namespace AttributeValue

/-! How many arrays and objects are nested in what is written for a value. -/

mutual
def depth : AttributeValue → Nat
  | .list elements => elementsDepth elements + 2
  | .map entries => entriesDepth entries + 2
  | .stringSet _ | .numberSet _ | .binarySet _ => 2
  | .string _ | .number _ | .binary _ | .boolean _ | .null _ => 1

def elementsDepth : List AttributeValue → Nat
  | [] => 0
  | value :: rest => max value.depth (elementsDepth rest)

def entriesDepth : List (String × AttributeValue) → Nat
  | [] => 0
  | (_, value) :: rest => max value.depth (entriesDepth rest)
end

theorem depth_pos (value : AttributeValue) : 0 < value.depth := by
  cases value <;> simp [depth]

theorem ofJson?_zero (json : Json) : ofJson? 0 json = none := by
  simp [ofJson?]

theorem bytesOfJson?_bytesJson (bytes : Bytes) : bytesOfJson? (bytesJson bytes) = some bytes := by
  simp [bytesJson, bytesOfJson?, Text.Base64.decode_encode Text.Base64.lawful_standard]

theorem mapM_written {α β γ : Type} {write : α → β} {read : β → Option γ} {result : α → γ}
    (reads : ∀ value, read (write value) = some (result value)) (values : List α) :
    (values.map write).mapM read = some (values.map result) := by
  induction values with
  | nil => rfl
  | cons value rest ih => simp [reads, ih]

theorem mapM_inverse {α β : Type} {write : α → β} {read : β → Option α}
    (inverse : ∀ value, read (write value) = some value) (values : List α) :
    (values.map write).mapM read = some values := by
  rw [mapM_written inverse, List.map_id']

theorem membersOfJson?_array {α : Type} (write : α → Json) (read : Json → Option α)
    (inverse : ∀ value, read (write value) = some value) (members : List α) (allowance : Nat) :
    membersOfJson? read (allowance + 1) (.array (members.map write)) = some members := by
  rw [membersOfJson?, mapM_inverse inverse]

/-! A value comes back if the allowance covers its depth, and nothing comes back if not. -/

mutual
theorem ofJson?_toJson : ∀ (value : AttributeValue) (allowance : Nat), value.Ordered →
    ofJson? allowance value.toJson = if value.depth ≤ allowance then some value else none
  | value, 0, _ => by
      have positive := depth_pos value
      rw [if_neg (by omega)]
      exact ofJson?_zero _
  | .string text, allowance + 1, _ => by simp [toJson, ofJson?, depth, textOfJson?]
  | .number text, allowance + 1, _ => by simp [toJson, ofJson?, depth, textOfJson?]
  | .binary bytes, allowance + 1, _ => by simp [toJson, ofJson?, depth, bytesOfJson?_bytesJson]
  | .boolean flag, allowance + 1, _ => by simp [toJson, ofJson?, depth, flagOfJson?]
  | .null flag, allowance + 1, _ => by simp [toJson, ofJson?, depth, flagOfJson?]
  | .stringSet members, 1, _ => by simp [toJson, ofJson?, depth, membersOfJson?]
  | .stringSet members, allowance + 2, _ => by
      have read := membersOfJson?_array Json.string textOfJson? (fun _ => rfl) members allowance
      simp [toJson, ofJson?, depth, read]
  | .numberSet members, 1, _ => by simp [toJson, ofJson?, depth, membersOfJson?]
  | .numberSet members, allowance + 2, _ => by
      have read := membersOfJson?_array Json.string textOfJson? (fun _ => rfl) members allowance
      simp [toJson, ofJson?, depth, read]
  | .binarySet members, 1, _ => by simp [toJson, ofJson?, depth, membersOfJson?]
  | .binarySet members, allowance + 2, _ => by
      have read := membersOfJson?_array _ _ bytesOfJson?_bytesJson members allowance
      simp [toJson, ofJson?, depth, read]
  | .list elements, 1, _ => by simp [toJson, ofJson?, depth]
  | .list elements, allowance + 2, ordered => by
      have read := mapM_elementsJson elements allowance ordered
      simp only [toJson, ofJson?, depth, Nat.add_le_add_iff_right, read]
      split <;> rfl
  | .map entries, 1, _ => by simp [toJson, ofJson?, depth]
  | .map entries, allowance + 2, ordered => by
      have read := mapM_entriesJson entries allowance ordered.2
      simp only [toJson, ofJson?, depth, Nat.add_le_add_iff_right, read]
      split
      · simp [Dict.ofList_eq_self ordered.1]
      · rfl

theorem mapM_elementsJson : ∀ (elements : List AttributeValue) (allowance : Nat),
    OrderedElements elements → (elementsJson elements).mapM (ofJson? allowance) =
      if elementsDepth elements ≤ allowance then some elements else none
  | [], allowance, _ => by simp [elementsJson, elementsDepth]
  | value :: rest, allowance, ordered => by
      have first := ofJson?_toJson value allowance ordered.1
      have later := mapM_elementsJson rest allowance ordered.2
      rw [elementsJson, List.mapM_cons, first, later, elementsDepth]
      by_cases here : value.depth ≤ allowance
      · by_cases there : elementsDepth rest ≤ allowance
        · simp [here, there, Nat.max_le]
        · simp [here, there, Nat.max_le]
      · simp [here, Nat.max_le]

theorem mapM_entriesJson : ∀ (entries : List (String × AttributeValue)) (allowance : Nat),
    OrderedEntries entries →
    ((entriesJson entries).mapM fun member =>
      (ofJson? allowance member.2).map fun value => (member.1, value)) =
      if entriesDepth entries ≤ allowance then some entries else none
  | [], allowance, _ => by simp [entriesJson, entriesDepth]
  | (name, value) :: rest, allowance, ordered => by
      have first := ofJson?_toJson value allowance ordered.1
      have later := mapM_entriesJson rest allowance ordered.2
      rw [entriesJson, List.mapM_cons, first, later, entriesDepth]
      by_cases here : value.depth ≤ allowance
      · by_cases there : entriesDepth rest ≤ allowance
        · simp [here, there, Nat.max_le]
        · simp [here, there, Nat.max_le]
      · simp [here, Nat.max_le]
end

theorem plainElements_map {α : Type} (write : α → Json) (plain : ∀ value, (write value).Plain)
    (values : List α) : Json.PlainElements (values.map write) := by
  induction values with
  | nil => exact trivial
  | cons value rest ih => exact ⟨plain value, ih⟩

mutual
theorem plain_toJson : ∀ value : AttributeValue, value.toJson.Plain
  | .string _ | .number _ | .binary _ | .boolean _ | .null _ => ⟨trivial, trivial⟩
  | .stringSet members => ⟨plainElements_map .string (fun _ => trivial) members, trivial⟩
  | .numberSet members => ⟨plainElements_map .string (fun _ => trivial) members, trivial⟩
  | .binarySet members => ⟨plainElements_map bytesJson (fun _ => trivial) members, trivial⟩
  | .list elements => ⟨plain_elementsJson elements, trivial⟩
  | .map entries => ⟨plain_entriesJson entries, trivial⟩

theorem plain_elementsJson : ∀ elements : List AttributeValue,
    Json.PlainElements (elementsJson elements)
  | [] => trivial
  | value :: rest => ⟨plain_toJson value, plain_elementsJson rest⟩

theorem plain_entriesJson : ∀ entries : List (String × AttributeValue),
    Json.PlainMembers (entriesJson entries)
  | [] => trivial
  | (_, value) :: rest => ⟨plain_toJson value, plain_entriesJson rest⟩
end

end AttributeValue

namespace Item

def depth (item : Item) : Nat :=
  AttributeValue.entriesDepth item + 1

end Item

namespace Document

theorem toItem?_ofItem {item : Item} (ordered : item.Ordered) :
    toItem? (ofItem item) = if item.depth ≤ Decoder.maxNesting then some item else none := by
  have text : Json.ofText? item.toJson.text = some item.toJson :=
    Json.ofText?_text (AttributeValue.plain_entriesJson item)
  have entries := AttributeValue.mapM_entriesJson item (Decoder.maxNesting - 1) ordered.2
  have covered : item.depth ≤ Decoder.maxNesting ↔
      AttributeValue.entriesDepth item ≤ Decoder.maxNesting - 1 := by
    simp only [Item.depth, Decoder.maxNesting]
    omega
  have run : Item.decoder.run item.toJson =
      (if item.depth ≤ Decoder.maxNesting then some item else none).map Dict.ofList := by
    simp only [covered]
    rw [← entries]
    rfl
  rw [toItem?, ofItem, text, Option.bind_eq_bind, Option.bind_some, run]
  split
  · simp [Dict.ofList_eq_self ordered.1]
  · rfl

/-- A document that can be read is read as the item it was written for. -/
theorem eq_of_toItem?_ofItem {item found : Item} (ordered : item.Ordered)
    (read : toItem? (ofItem item) = some found) : found = item := by
  rw [toItem?_ofItem ordered] at read
  split at read
  · cases read
    rfl
  · cases read

end Document
end ItemStore
