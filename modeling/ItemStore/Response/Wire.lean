import ItemStore.Request.Wire
import ItemStore.Response.Basic

/-!
Responses as JSON records.
-/

namespace ItemStore

open Wire

namespace Double

def toJson (value : Double) : Json := .number value.toJsonNumber

def decoder : Decoder Double
  | _, .number written => ofJsonNumber? written
  | _, _ => none

end Double

namespace CapacityUnits

def fields (units : CapacityUnits) : List (String × Json) :=
  optionalField "ReadCapacityUnits" Double.toJson units.read ++
    optionalField "WriteCapacityUnits" Double.toJson units.write ++
    optionalField "CapacityUnits" Double.toJson units.total

def ofRecord (record : Record) : Option CapacityUnits := do
  return {
    read := ← record.optional "ReadCapacityUnits" Double.decoder
    write := ← record.optional "WriteCapacityUnits" Double.decoder
    total := ← record.optional "CapacityUnits" Double.decoder }

def decoder : Decoder CapacityUnits := fun allowance value => do
  ofRecord (← Record.open? ["ReadCapacityUnits", "WriteCapacityUnits", "CapacityUnits"] allowance
    value)

def toJson (units : CapacityUnits) : Json := .object units.fields

end CapacityUnits

namespace ConsumedCapacity

def decoder : Decoder ConsumedCapacity := fun allowance value => do
  let record ← Record.open? ["TableName", "CapacityUnits", "ReadCapacityUnits",
    "WriteCapacityUnits", "Table", "GlobalSecondaryIndexes"] allowance value
  return {
    tableName := ← record.optional "TableName" Decoder.text
    units := ← CapacityUnits.ofRecord record
    table := ← record.optional "Table" CapacityUnits.decoder
    indexes := ← record.defaulted "GlobalSecondaryIndexes" [] (Decoder.dict CapacityUnits.decoder) }

def toJson (consumed : ConsumedCapacity) : Json :=
  .object <| optionalText "TableName" consumed.tableName ++ consumed.units.fields ++
    optionalField "Table" CapacityUnits.toJson consumed.table ++
    dictField "GlobalSecondaryIndexes" CapacityUnits.toJson consumed.indexes

end ConsumedCapacity

namespace Wire

def consumedField : Option ConsumedCapacity → List (String × Json) :=
  optionalField "ConsumedCapacity" ConsumedCapacity.toJson

def readConsumed (record : Record) : Option (Option ConsumedCapacity) :=
  record.optional "ConsumedCapacity" ConsumedCapacity.decoder

def consumedListField : List ConsumedCapacity → List (String × Json) :=
  listField "ConsumedCapacity" ConsumedCapacity.toJson

def readConsumedList (record : Record) : Option (List ConsumedCapacity) :=
  record.defaulted "ConsumedCapacity" [] (Decoder.list ConsumedCapacity.decoder)

end Wire

namespace GetItemResponse

def decoder : Decoder GetItemResponse := fun allowance value => do
  let record ← Record.open? ["Item", "ConsumedCapacity"] allowance value
  return { item := ← record.optional "Item" Item.decoder, consumed := ← readConsumed record }

def toJson (response : GetItemResponse) : Json :=
  .object <| optionalField "Item" Item.toJson response.item ++ consumedField response.consumed

end GetItemResponse

namespace WriteResponse

def decoder : Decoder WriteResponse := fun allowance value => do
  let record ← Record.open? ["Attributes", "ConsumedCapacity"] allowance value
  return {
    attributes := ← record.optional "Attributes" Item.decoder
    consumed := ← readConsumed record }

def toJson (response : WriteResponse) : Json :=
  .object <| optionalField "Attributes" Item.toJson response.attributes ++
    consumedField response.consumed

end WriteResponse

namespace PageResponse

def decoder : Decoder PageResponse := fun allowance value => do
  let record ← Record.open? ["Items", "Count", "ScannedCount", "LastEvaluatedKey",
    "ConsumedCapacity"] allowance value
  return {
    items := ← record.defaulted "Items" [] (Decoder.list Item.decoder)
    count := ← record.required "Count" Decoder.int32
    scannedCount := ← record.required "ScannedCount" Decoder.int32
    lastKey := ← record.optional "LastEvaluatedKey" Decoder.text
    consumed := ← readConsumed record }

def toJson (response : PageResponse) : Json :=
  .object <| listField "Items" Item.toJson response.items ++
    [("Count", Json.ofInt response.count), ("ScannedCount", Json.ofInt response.scannedCount)] ++
    optionalText "LastEvaluatedKey" response.lastKey ++ consumedField response.consumed

end PageResponse

namespace BatchGetResponse

def decoder : Decoder BatchGetResponse := fun allowance value => do
  let record ← Record.open? ["Responses", "UnprocessedKeys", "ConsumedCapacity"] allowance value
  return {
    items := ← record.defaulted "Responses" [] (Decoder.dict (Decoder.list Item.decoder))
    unprocessed := ← record.defaulted "UnprocessedKeys" [] (Decoder.dict KeysRequest.decoder)
    consumed := ← readConsumedList record }

def toJson (response : BatchGetResponse) : Json :=
  .object <| [("Responses", dictJson (listJson Item.toJson) response.items),
    ("UnprocessedKeys", dictJson KeysRequest.toJson response.unprocessed)] ++
    consumedListField response.consumed

end BatchGetResponse

namespace BatchWriteResponse

def decoder : Decoder BatchWriteResponse := fun allowance value => do
  let record ← Record.open? ["UnprocessedItems", "ConsumedCapacity"] allowance value
  return {
    unprocessed := ← record.defaulted "UnprocessedItems" []
      (Decoder.dict (Decoder.list BatchWrite.decoder))
    consumed := ← readConsumedList record }

def toJson (response : BatchWriteResponse) : Json :=
  .object <| [("UnprocessedItems", dictJson (listJson BatchWrite.toJson) response.unprocessed)] ++
    consumedListField response.consumed

end BatchWriteResponse

namespace TransactGetResponse

def entry : Decoder (Option Item) := fun allowance value => do
  let record ← Record.open? ["Item"] allowance value
  record.optional "Item" Item.decoder

def entryJson (item : Option Item) : Json :=
  .object (optionalField "Item" Item.toJson item)

def decoder : Decoder TransactGetResponse := fun allowance value => do
  let record ← Record.open? ["Responses", "ConsumedCapacity"] allowance value
  return {
    items := ← record.defaulted "Responses" [] (Decoder.list entry)
    consumed := ← readConsumedList record }

def toJson (response : TransactGetResponse) : Json :=
  .object <| [("Responses", listJson entryJson response.items)] ++
    consumedListField response.consumed

end TransactGetResponse

namespace TransactWriteResponse

def decoder : Decoder TransactWriteResponse := fun allowance value => do
  let record ← Record.open? ["ConsumedCapacity"] allowance value
  return { consumed := ← readConsumedList record }

def toJson (response : TransactWriteResponse) : Json :=
  .object (consumedListField response.consumed)

end TransactWriteResponse

def Response.toJson : Response → Json
  | .item response => response.toJson
  | .written response => response.toJson
  | .page response => response.toJson
  | .batchGet response => response.toJson
  | .batchWrite response => response.toJson
  | .transactGet response => response.toJson
  | .transactWrite response => response.toJson

namespace CancellationReason

def codeDecoder : Decoder CancellationCode :=
  Decoder.choice (CancellationCode.all.map fun code => (code.text, code))

def decoder : Decoder CancellationReason := fun allowance value => do
  let record ← Record.open? ["Code", "Message", "Item"] allowance value
  return {
    code := ← record.required "Code" codeDecoder
    message := ← record.optional "Message" Decoder.text
    item := ← record.optional "Item" Item.decoder }

def toJson (reason : CancellationReason) : Json :=
  .object <| textField "Code" reason.code.text ++ optionalText "Message" reason.message ++
    optionalField "Item" Item.toJson reason.item

end CancellationReason
end ItemStore
