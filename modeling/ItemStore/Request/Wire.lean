import ItemStore.Request.Basic
import ItemStore.Value.Json

/-!
Requests as JSON records. On writing, what is none or empty is left out unless a reader needs it.
-/

namespace ItemStore
namespace Wire

def optionalField {α : Type} (name : String) (encode : α → Json) : Option α → List (String × Json)
  | none => []
  | some value => [(name, encode value)]

def dictJson {α : Type} (encode : α → Json) (entries : Dict String α) : Json :=
  .object (entries.mapValues encode)

def listJson {α : Type} (encode : α → Json) (values : List α) : Json :=
  .array (values.map encode)

def dictField {α : Type} (name : String) (encode : α → Json) (entries : Dict String α) :
    List (String × Json) :=
  if entries.isEmpty then [] else [(name, dictJson encode entries)]

def listField {α : Type} (name : String) (encode : α → Json) (values : List α) :
    List (String × Json) :=
  if values.isEmpty then [] else [(name, listJson encode values)]

def textField (name : String) (text : String) : List (String × Json) :=
  [(name, .string text)]

def itemField (name : String) (item : Item) : List (String × Json) :=
  [(name, item.toJson)]

def optionalText (name : String) : Option String → List (String × Json) :=
  optionalField name .string

def optionalFlag (name : String) : Option Bool → List (String × Json) :=
  optionalField name .bool

def namesField (names : Dict String String) : List (String × Json) :=
  dictField "ExpressionAttributeNames" .string names

def bindingsFields (bindings : Bindings) : List (String × Json) :=
  namesField bindings.names ++
    dictField "ExpressionAttributeValues" AttributeValue.toJson bindings.values

def readNames (record : Record) : Option (Dict String String) :=
  record.defaulted "ExpressionAttributeNames" [] (Decoder.dict Decoder.text)

def readBindings (record : Record) : Option Bindings := do
  let names ← readNames record
  let values ← record.defaulted "ExpressionAttributeValues" []
    (Decoder.dict AttributeValue.decoder)
  return ⟨names, values⟩

end Wire

open Wire

namespace ReturnValues

def toJson (value : ReturnValues) : Json := .string value.text

def decoder : Decoder ReturnValues :=
  Decoder.choice (all.map fun value => (value.text, value))

end ReturnValues

namespace FailureReturn

def toJson (value : FailureReturn) : Json := .string value.text

def decoder : Decoder FailureReturn :=
  Decoder.choice (all.map fun value => (value.text, value))

end FailureReturn

namespace CapacityDetail

def toJson (value : CapacityDetail) : Json := .string value.text

def decoder : Decoder CapacityDetail :=
  Decoder.choice (all.map fun value => (value.text, value))

end CapacityDetail

namespace Select

def toJson (value : Select) : Json := .string value.text

def decoder : Decoder Select :=
  Decoder.choice (all.map fun value => (value.text, value))

end Select

namespace Wire

def capacityField : Option CapacityDetail → List (String × Json) :=
  optionalField "ReturnConsumedCapacity" CapacityDetail.toJson

def readCapacity (record : Record) : Option (Option CapacityDetail) :=
  record.optional "ReturnConsumedCapacity" CapacityDetail.decoder

def onFailureField : Option FailureReturn → List (String × Json) :=
  optionalField "ReturnValuesOnConditionCheckFailure" FailureReturn.toJson

def readOnFailure (record : Record) : Option (Option FailureReturn) :=
  record.optional "ReturnValuesOnConditionCheckFailure" FailureReturn.decoder

end Wire

namespace PutItemRequest

def decoder : Decoder PutItemRequest := fun allowance value => do
  let record ← Record.open? ["TableName", "Item", "ConditionExpression",
    "ExpressionAttributeNames", "ExpressionAttributeValues", "ReturnValues",
    "ReturnValuesOnConditionCheckFailure", "ReturnConsumedCapacity"] allowance value
  return {
    table := ← record.required "TableName" Decoder.text
    item := ← record.required "Item" Item.decoder
    condition := ← record.optional "ConditionExpression" Decoder.text
    bindings := ← readBindings record
    returnValues := ← record.optional "ReturnValues" ReturnValues.decoder
    onFailure := ← readOnFailure record
    capacity := ← readCapacity record }

def toJson (request : PutItemRequest) : Json :=
  .object <| textField "TableName" request.table ++ itemField "Item" request.item ++
    optionalText "ConditionExpression" request.condition ++ bindingsFields request.bindings ++
    optionalField "ReturnValues" ReturnValues.toJson request.returnValues ++
    onFailureField request.onFailure ++ capacityField request.capacity

end PutItemRequest

namespace GetItemRequest

def decoder : Decoder GetItemRequest := fun allowance value => do
  let record ← Record.open? ["TableName", "Key", "ConsistentRead", "ProjectionExpression",
    "ExpressionAttributeNames", "ReturnConsumedCapacity"] allowance value
  return {
    table := ← record.required "TableName" Decoder.text
    key := ← record.required "Key" Item.decoder
    consistentRead := ← record.optional "ConsistentRead" Decoder.flag
    projection := ← record.optional "ProjectionExpression" Decoder.text
    names := ← readNames record
    capacity := ← readCapacity record }

def toJson (request : GetItemRequest) : Json :=
  .object <| textField "TableName" request.table ++ itemField "Key" request.key ++
    optionalFlag "ConsistentRead" request.consistentRead ++
    optionalText "ProjectionExpression" request.projection ++ namesField request.names ++
    capacityField request.capacity

end GetItemRequest

namespace UpdateItemRequest

def decoder : Decoder UpdateItemRequest := fun allowance value => do
  let record ← Record.open? ["TableName", "Key", "UpdateExpression", "ConditionExpression",
    "ExpressionAttributeNames", "ExpressionAttributeValues", "ReturnValues",
    "ReturnValuesOnConditionCheckFailure", "ReturnConsumedCapacity"] allowance value
  return {
    table := ← record.required "TableName" Decoder.text
    key := ← record.required "Key" Item.decoder
    update := ← record.optional "UpdateExpression" Decoder.text
    condition := ← record.optional "ConditionExpression" Decoder.text
    bindings := ← readBindings record
    returnValues := ← record.optional "ReturnValues" ReturnValues.decoder
    onFailure := ← readOnFailure record
    capacity := ← readCapacity record }

def toJson (request : UpdateItemRequest) : Json :=
  .object <| textField "TableName" request.table ++ itemField "Key" request.key ++
    optionalText "UpdateExpression" request.update ++
    optionalText "ConditionExpression" request.condition ++ bindingsFields request.bindings ++
    optionalField "ReturnValues" ReturnValues.toJson request.returnValues ++
    onFailureField request.onFailure ++ capacityField request.capacity

end UpdateItemRequest

namespace DeleteItemRequest

def decoder : Decoder DeleteItemRequest := fun allowance value => do
  let record ← Record.open? ["TableName", "Key", "ConditionExpression",
    "ExpressionAttributeNames", "ExpressionAttributeValues", "ReturnValues",
    "ReturnValuesOnConditionCheckFailure", "ReturnConsumedCapacity"] allowance value
  return {
    table := ← record.required "TableName" Decoder.text
    key := ← record.required "Key" Item.decoder
    condition := ← record.optional "ConditionExpression" Decoder.text
    bindings := ← readBindings record
    returnValues := ← record.optional "ReturnValues" ReturnValues.decoder
    onFailure := ← readOnFailure record
    capacity := ← readCapacity record }

def toJson (request : DeleteItemRequest) : Json :=
  .object <| textField "TableName" request.table ++ itemField "Key" request.key ++
    optionalText "ConditionExpression" request.condition ++ bindingsFields request.bindings ++
    optionalField "ReturnValues" ReturnValues.toJson request.returnValues ++
    onFailureField request.onFailure ++ capacityField request.capacity

end DeleteItemRequest

namespace QueryRequest

def decoder : Decoder QueryRequest := fun allowance value => do
  let record ← Record.open? ["TableName", "IndexName", "KeyConditionExpression",
    "FilterExpression", "ProjectionExpression", "ExpressionAttributeNames",
    "ExpressionAttributeValues", "ScanIndexForward", "Limit", "ExclusiveStartKey", "Select",
    "ConsistentRead", "ReturnConsumedCapacity"] allowance value
  return {
    table := ← record.required "TableName" Decoder.text
    index := ← record.optional "IndexName" Decoder.text
    keyCondition := ← record.optional "KeyConditionExpression" Decoder.text
    filter := ← record.optional "FilterExpression" Decoder.text
    projection := ← record.optional "ProjectionExpression" Decoder.text
    bindings := ← readBindings record
    forward := ← record.optional "ScanIndexForward" Decoder.flag
    limit := ← record.optional "Limit" Decoder.int32
    startKey := ← record.optional "ExclusiveStartKey" Decoder.text
    select := ← record.optional "Select" Select.decoder
    consistentRead := ← record.optional "ConsistentRead" Decoder.flag
    capacity := ← readCapacity record }

def toJson (request : QueryRequest) : Json :=
  .object <| textField "TableName" request.table ++ optionalText "IndexName" request.index ++
    optionalText "KeyConditionExpression" request.keyCondition ++
    optionalText "FilterExpression" request.filter ++
    optionalText "ProjectionExpression" request.projection ++ bindingsFields request.bindings ++
    optionalFlag "ScanIndexForward" request.forward ++
    optionalField "Limit" Json.ofInt request.limit ++
    optionalText "ExclusiveStartKey" request.startKey ++
    optionalField "Select" Select.toJson request.select ++
    optionalFlag "ConsistentRead" request.consistentRead ++ capacityField request.capacity

end QueryRequest

namespace ScanRequest

def decoder : Decoder ScanRequest := fun allowance value => do
  let record ← Record.open? ["TableName", "IndexName", "FilterExpression",
    "ProjectionExpression", "ExpressionAttributeNames", "ExpressionAttributeValues", "Limit",
    "ExclusiveStartKey", "Select", "ConsistentRead", "ReturnConsumedCapacity"] allowance value
  return {
    table := ← record.required "TableName" Decoder.text
    index := ← record.optional "IndexName" Decoder.text
    filter := ← record.optional "FilterExpression" Decoder.text
    projection := ← record.optional "ProjectionExpression" Decoder.text
    bindings := ← readBindings record
    limit := ← record.optional "Limit" Decoder.int32
    startKey := ← record.optional "ExclusiveStartKey" Decoder.text
    select := ← record.optional "Select" Select.decoder
    consistentRead := ← record.optional "ConsistentRead" Decoder.flag
    capacity := ← readCapacity record }

def toJson (request : ScanRequest) : Json :=
  .object <| textField "TableName" request.table ++ optionalText "IndexName" request.index ++
    optionalText "FilterExpression" request.filter ++
    optionalText "ProjectionExpression" request.projection ++ bindingsFields request.bindings ++
    optionalField "Limit" Json.ofInt request.limit ++
    optionalText "ExclusiveStartKey" request.startKey ++
    optionalField "Select" Select.toJson request.select ++
    optionalFlag "ConsistentRead" request.consistentRead ++ capacityField request.capacity

end ScanRequest

namespace KeysRequest

def decoder : Decoder KeysRequest := fun allowance value => do
  let record ← Record.open? ["Keys", "ProjectionExpression", "ExpressionAttributeNames",
    "ConsistentRead"] allowance value
  return {
    keys := ← record.required "Keys" (Decoder.list Item.decoder)
    projection := ← record.optional "ProjectionExpression" Decoder.text
    names := ← readNames record
    consistentRead := ← record.optional "ConsistentRead" Decoder.flag }

def toJson (request : KeysRequest) : Json :=
  .object <| [("Keys", listJson Item.toJson request.keys)] ++
    optionalText "ProjectionExpression" request.projection ++ namesField request.names ++
    optionalFlag "ConsistentRead" request.consistentRead

end KeysRequest

namespace BatchGetRequest

def decoder : Decoder BatchGetRequest := fun allowance value => do
  let record ← Record.open? ["RequestItems", "ReturnConsumedCapacity"] allowance value
  return {
    tables := ← record.required "RequestItems" (Decoder.dict KeysRequest.decoder)
    capacity := ← readCapacity record }

def toJson (request : BatchGetRequest) : Json :=
  .object <| [("RequestItems", dictJson KeysRequest.toJson request.tables)] ++
    capacityField request.capacity

end BatchGetRequest

namespace BatchWrite

def itemRecord (name : String) : Decoder Item := fun allowance value => do
  let record ← Record.open? [name] allowance value
  record.required name Item.decoder

def decoder : Decoder BatchWrite := fun allowance value => do
  let record ← Record.open? ["PutRequest", "DeleteRequest"] allowance value
  return {
    put := ← record.optional "PutRequest" (itemRecord "Item")
    delete := ← record.optional "DeleteRequest" (itemRecord "Key") }

def toJson (write : BatchWrite) : Json :=
  .object <| optionalField "PutRequest" (fun item => .object (itemField "Item" item)) write.put ++
    optionalField "DeleteRequest" (fun key => .object (itemField "Key" key)) write.delete

end BatchWrite

namespace BatchWriteRequest

def decoder : Decoder BatchWriteRequest := fun allowance value => do
  let record ← Record.open? ["RequestItems", "ReturnConsumedCapacity"] allowance value
  return {
    tables := ← record.required "RequestItems" (Decoder.dict (Decoder.list BatchWrite.decoder))
    capacity := ← readCapacity record }

def toJson (request : BatchWriteRequest) : Json :=
  .object <| [("RequestItems", dictJson (listJson BatchWrite.toJson) request.tables)] ++
    capacityField request.capacity

end BatchWriteRequest

namespace TransactGet

def body : Decoder TransactGet := fun allowance value => do
  let record ← Record.open? ["TableName", "Key", "ProjectionExpression",
    "ExpressionAttributeNames"] allowance value
  return {
    table := ← record.required "TableName" Decoder.text
    key := ← record.required "Key" Item.decoder
    projection := ← record.optional "ProjectionExpression" Decoder.text
    names := ← readNames record }

def decoder : Decoder TransactGet := fun allowance value => do
  let record ← Record.open? ["Get"] allowance value
  record.required "Get" body

def toJson (get : TransactGet) : Json :=
  .object [("Get", .object <| textField "TableName" get.table ++ itemField "Key" get.key ++
    optionalText "ProjectionExpression" get.projection ++ namesField get.names)]

end TransactGet

namespace TransactGetRequest

def decoder : Decoder TransactGetRequest := fun allowance value => do
  let record ← Record.open? ["TransactItems", "ReturnConsumedCapacity"] allowance value
  return {
    gets := ← record.required "TransactItems" (Decoder.list TransactGet.decoder)
    capacity := ← readCapacity record }

def toJson (request : TransactGetRequest) : Json :=
  .object <| [("TransactItems", listJson TransactGet.toJson request.gets)] ++
    capacityField request.capacity

end TransactGetRequest

namespace ConditionCheck

def decoder : Decoder ConditionCheck := fun allowance value => do
  let record ← Record.open? ["TableName", "Key", "ConditionExpression",
    "ExpressionAttributeNames", "ExpressionAttributeValues",
    "ReturnValuesOnConditionCheckFailure"] allowance value
  return {
    table := ← record.required "TableName" Decoder.text
    key := ← record.required "Key" Item.decoder
    condition := ← record.required "ConditionExpression" Decoder.text
    bindings := ← readBindings record
    onFailure := ← readOnFailure record }

def toJson (check : ConditionCheck) : Json :=
  .object <| textField "TableName" check.table ++ itemField "Key" check.key ++
    textField "ConditionExpression" check.condition ++ bindingsFields check.bindings ++
    onFailureField check.onFailure

end ConditionCheck

namespace TransactPut

def decoder : Decoder TransactPut := fun allowance value => do
  let record ← Record.open? ["TableName", "Item", "ConditionExpression",
    "ExpressionAttributeNames", "ExpressionAttributeValues",
    "ReturnValuesOnConditionCheckFailure"] allowance value
  return {
    table := ← record.required "TableName" Decoder.text
    item := ← record.required "Item" Item.decoder
    condition := ← record.optional "ConditionExpression" Decoder.text
    bindings := ← readBindings record
    onFailure := ← readOnFailure record }

def toJson (put : TransactPut) : Json :=
  .object <| textField "TableName" put.table ++ itemField "Item" put.item ++
    optionalText "ConditionExpression" put.condition ++ bindingsFields put.bindings ++
    onFailureField put.onFailure

end TransactPut

namespace TransactDelete

def decoder : Decoder TransactDelete := fun allowance value => do
  let record ← Record.open? ["TableName", "Key", "ConditionExpression",
    "ExpressionAttributeNames", "ExpressionAttributeValues",
    "ReturnValuesOnConditionCheckFailure"] allowance value
  return {
    table := ← record.required "TableName" Decoder.text
    key := ← record.required "Key" Item.decoder
    condition := ← record.optional "ConditionExpression" Decoder.text
    bindings := ← readBindings record
    onFailure := ← readOnFailure record }

def toJson (delete : TransactDelete) : Json :=
  .object <| textField "TableName" delete.table ++ itemField "Key" delete.key ++
    optionalText "ConditionExpression" delete.condition ++ bindingsFields delete.bindings ++
    onFailureField delete.onFailure

end TransactDelete

namespace TransactUpdate

def decoder : Decoder TransactUpdate := fun allowance value => do
  let record ← Record.open? ["TableName", "Key", "UpdateExpression", "ConditionExpression",
    "ExpressionAttributeNames", "ExpressionAttributeValues",
    "ReturnValuesOnConditionCheckFailure"] allowance value
  return {
    table := ← record.required "TableName" Decoder.text
    key := ← record.required "Key" Item.decoder
    update := ← record.required "UpdateExpression" Decoder.text
    condition := ← record.optional "ConditionExpression" Decoder.text
    bindings := ← readBindings record
    onFailure := ← readOnFailure record }

def toJson (update : TransactUpdate) : Json :=
  .object <| textField "TableName" update.table ++ itemField "Key" update.key ++
    textField "UpdateExpression" update.update ++
    optionalText "ConditionExpression" update.condition ++ bindingsFields update.bindings ++
    onFailureField update.onFailure

end TransactUpdate

namespace TransactWrite

def decoder : Decoder TransactWrite := fun allowance value => do
  let record ← Record.open? ["ConditionCheck", "Put", "Delete", "Update"] allowance value
  return {
    check := ← record.optional "ConditionCheck" ConditionCheck.decoder
    put := ← record.optional "Put" TransactPut.decoder
    delete := ← record.optional "Delete" TransactDelete.decoder
    update := ← record.optional "Update" TransactUpdate.decoder }

def toJson (write : TransactWrite) : Json :=
  .object <| optionalField "ConditionCheck" ConditionCheck.toJson write.check ++
    optionalField "Put" TransactPut.toJson write.put ++
    optionalField "Delete" TransactDelete.toJson write.delete ++
    optionalField "Update" TransactUpdate.toJson write.update

end TransactWrite

namespace TransactWriteRequest

def decoder : Decoder TransactWriteRequest := fun allowance value => do
  let record ← Record.open? ["TransactItems", "ReturnConsumedCapacity"] allowance value
  return {
    writes := ← record.required "TransactItems" (Decoder.list TransactWrite.decoder)
    capacity := ← readCapacity record }

def toJson (request : TransactWriteRequest) : Json :=
  .object <| [("TransactItems", listJson TransactWrite.toJson request.writes)] ++
    capacityField request.capacity

end TransactWriteRequest

namespace Request

def decoder (operation : String) : Decoder Request := fun allowance value =>
  match operation with
  | "GetItem" => (GetItemRequest.decoder allowance value).map .getItem
  | "PutItem" => (PutItemRequest.decoder allowance value).map .putItem
  | "UpdateItem" => (UpdateItemRequest.decoder allowance value).map .updateItem
  | "DeleteItem" => (DeleteItemRequest.decoder allowance value).map .deleteItem
  | "Query" => (QueryRequest.decoder allowance value).map .query
  | "Scan" => (ScanRequest.decoder allowance value).map .scan
  | "BatchGetItem" => (BatchGetRequest.decoder allowance value).map .batchGet
  | "BatchWriteItem" => (BatchWriteRequest.decoder allowance value).map .batchWrite
  | "TransactGetItems" => (TransactGetRequest.decoder allowance value).map .transactGet
  | "TransactWriteItems" => (TransactWriteRequest.decoder allowance value).map .transactWrite
  | _ => none

end Request
end ItemStore
