import ItemStore.Cursor
import ItemStore.Engine.Failure
import ItemStore.Proofs.Number.RoundTrip
import ItemStore.Proofs.Value.RoundTrip
import ItemStore.Text.Utf8

/-!
A cursor is read back as the row key it was made from, for the space it was made for.
-/

namespace ItemStore

namespace Text

theorem toList_loop (bytes : ByteArray) : ∀ (left position : Nat) (done : Bytes),
    bytes.size - position = left →
    ByteArray.toList.loop bytes position done = done.reverse ++ bytes.data.toList.drop position
  | 0, position, done, last => by
      have size : bytes.data.toList.length = bytes.size := rfl
      rw [ByteArray.toList.loop, if_neg (by omega), List.drop_eq_nil_of_le (by omega),
        List.append_nil]
  | left + 1, position, done, more => by
      have inside : position < bytes.size := by omega
      have listed : position < bytes.data.toList.length := inside
      have here : bytes.get! position = bytes.data.toList[position] :=
        getElem!_pos bytes.data position inside
      rw [ByteArray.toList.loop, if_pos inside, toList_loop bytes left _ _ (by omega), here,
        List.drop_eq_getElem_cons listed, List.reverse_cons, List.append_assoc]
      rfl

theorem toList_toUTF8 (text : String) :
    text.toUTF8.toList = text.toList.flatMap String.utf8EncodeChar := by
  rw [String.toUTF8_eq_toByteArray, ← String.utf8Encode_toList, ByteArray.toList,
    toList_loop _ _ _ _ rfl]
  exact List.toList_data_toByteArray

end Text

namespace KeyValue

theorem ofAttribute?_toAttribute (value : KeyValue) :
    ofAttribute? value.toAttribute = some value := by
  cases value with
  | string text => rfl
  | number parsed => simp [toAttribute, ofAttribute?, Number.parse_text]
  | binary bytes => rfl

theorem decoder_toAttribute (value : KeyValue) (allowance : Nat) :
    AttributeValue.decoder (allowance + 1) value.toAttribute.toJson = some value.toAttribute := by
  have ordered : value.toAttribute.Ordered := by cases value <;> trivial
  have depth : value.toAttribute.depth ≤ allowance + 1 := by
    cases value <;> simp [toAttribute, AttributeValue.depth]
  rw [AttributeValue.decoder, AttributeValue.ofJson?_toJson _ _ ordered, if_pos depth]

end KeyValue

namespace Cursor

variable (space : Space) (key : RowKey)

theorem plain_toJson : (toJson space key).Plain := by
  have sort : ∀ values : List KeyValue,
      Json.PlainElements (values.map fun value => value.toAttribute.toJson) :=
    AttributeValue.plainElements_map _ fun value => AttributeValue.plain_toJson value.toAttribute
  have hash := AttributeValue.plain_toJson key.hash.toAttribute
  cases named : space.index with
  | none =>
      rw [toJson, named]
      exact ⟨trivial, hash, sort key.sort, trivial⟩
  | some index =>
      rw [toJson, named]
      exact ⟨trivial, trivial, hash, sort key.sort, trivial⟩

theorem record?_encode : record? (encode space key) = some (toJson space key) := by
  rw [record?, encode, String.toList_ofList, Text.Base64.decode_encode Text.Base64.lawful_urlSafe,
    Option.bind_some, Json.ofBytes?, Text.toList_toUTF8, Text.charsOfBytes_encoded]
  exact Json.ofText?_text (plain_toJson space key)

theorem run_toJson : decoder.run (toJson space key) =
    some (space, key.hash.toAttribute, key.sort.map KeyValue.toAttribute) := by
  obtain ⟨table, index⟩ := space
  have hash := key.hash.decoder_toAttribute 125
  have sort : (key.sort.map fun value => value.toAttribute.toJson).mapM
      (AttributeValue.decoder 125) = some (key.sort.map KeyValue.toAttribute) :=
    AttributeValue.mapM_written (fun value => value.decoder_toAttribute 124) key.sort
  cases index <;>
    simp [toJson, decoder, Decoder.run, Decoder.maxNesting, Record.open?, Record.required,
      Record.optional, Decoder.text, Decoder.list, List.lookup_cons, hash, sort]

theorem decode_encode_named (named : Space) :
    decode named (encode space key) = if named = space then .ok key else .error .otherSpace := by
  have sort : (key.sort.map KeyValue.toAttribute).mapM KeyValue.ofAttribute? = some key.sort :=
    AttributeValue.mapM_inverse KeyValue.ofAttribute?_toAttribute key.sort
  rw [decode, record?_encode, Option.bind_some, run_toJson]
  simp only [KeyValue.ofAttribute?_toAttribute, sort, @eq_comm _ named]

theorem decode_encode : decode space (encode space key) = .ok key := by
  rw [decode_encode_named, if_pos rfl]

theorem encode_inj {other : Space} {otherKey : RowKey}
    (same : encode space key = encode other otherKey) : space = other ∧ key = otherKey := by
  have read := decode_encode space key
  rw [same, decode_encode_named] at read
  split at read
  · rename_i sameSpace
    exact ⟨sameSpace, (Except.ok.inj read).symm⟩
  · cases read

/-- Tokens keep all that they are made of: a token gives back its key in its own space, fails the
request as not valid in any other, and no two keys or spaces share a token. -/
theorem tokens_faithful :
    (∀ (space named : Space) (key : RowKey), decode named (encode space key) =
      if named = space then .ok key else .error .otherSpace) ∧
    (∀ error : CursorError, (Failure.cursor error).code = .validation) ∧
    ∀ (space other : Space) (key otherKey : RowKey),
      encode space key = encode other otherKey ↔ space = other ∧ key = otherKey := by
  refine ⟨fun space named key => decode_encode_named space key named, fun _ => rfl, ?_⟩
  intro space other key otherKey
  refine ⟨encode_inj space key, ?_⟩
  rintro ⟨rfl, rfl⟩
  rfl

end Cursor
end ItemStore
