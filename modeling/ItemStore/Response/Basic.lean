import ItemStore.Number.Double
import ItemStore.Request.Basic

/-!
The answers of an engine: the responses to requests that succeed, and the reports of those that
fail.
-/

namespace ItemStore

structure CapacityUnits where
  read : Option Double
  write : Option Double
  total : Option Double
deriving DecidableEq

structure ConsumedCapacity where
  tableName : Option String
  units : CapacityUnits
  table : Option CapacityUnits
  indexes : Dict String CapacityUnits
deriving DecidableEq

structure GetItemResponse where
  item : Option Item
  consumed : Option ConsumedCapacity

structure WriteResponse where
  attributes : Option Item
  consumed : Option ConsumedCapacity

structure PageResponse where
  items : List Item
  count : Int
  scannedCount : Int
  lastKey : Option String
  consumed : Option ConsumedCapacity

structure BatchGetResponse where
  items : Dict String (List Item)
  unprocessed : Dict String KeysRequest
  consumed : List ConsumedCapacity

structure BatchWriteResponse where
  unprocessed : Dict String (List BatchWrite)
  consumed : List ConsumedCapacity

structure TransactGetResponse where
  items : List (Option Item)
  consumed : List ConsumedCapacity

structure TransactWriteResponse where
  consumed : List ConsumedCapacity

inductive Response where
  | item (response : GetItemResponse)
  | written (response : WriteResponse)
  | page (response : PageResponse)
  | batchGet (response : BatchGetResponse)
  | batchWrite (response : BatchWriteResponse)
  | transactGet (response : TransactGetResponse)
  | transactWrite (response : TransactWriteResponse)

inductive CancellationCode where
  | none
  | conditionalCheckFailed
  | validationError
deriving DecidableEq, Repr

namespace CancellationCode

def text : CancellationCode → String
  | .none => "None"
  | .conditionalCheckFailed => "ConditionalCheckFailed"
  | .validationError => "ValidationError"

def all : List CancellationCode := [.none, .conditionalCheckFailed, .validationError]

end CancellationCode

structure CancellationReason where
  code : CancellationCode
  message : Option String
  item : Option Item

inductive ErrorCode where
  | resourceNotFound
  | conditionalCheckFailed
  | transactionCanceled
  | validation
  | internalServerError
deriving DecidableEq, Repr

namespace ErrorCode

def text : ErrorCode → String
  | .resourceNotFound => "ResourceNotFoundException"
  | .conditionalCheckFailed => "ConditionalCheckFailedException"
  | .transactionCanceled => "TransactionCanceledException"
  | .validation => "ValidationException"
  | .internalServerError => "InternalServerError"

def all : List ErrorCode :=
  [.resourceNotFound, .conditionalCheckFailed, .transactionCanceled, .validation,
    .internalServerError]

def default : ErrorCode := .validation

def isRetryable (code : ErrorCode) : Bool :=
  code == .internalServerError

end ErrorCode

structure ErrorReport where
  code : ErrorCode
  message : String
  reasons : List CancellationReason
  item : Option Item

namespace ErrorReport

def ofCode (code : ErrorCode) : ErrorReport :=
  ⟨code, code.text, [], none⟩

def ofMessage (code : ErrorCode) (message : String) : ErrorReport :=
  ⟨code, message, [], none⟩

def cancelled (reasons : List CancellationReason) : ErrorReport :=
  ⟨.transactionCanceled,
    "Transaction cancelled, please refer cancellation reasons for specific reasons [" ++
      ", ".intercalate (reasons.map fun reason => reason.code.text) ++ "]",
    reasons, none⟩

def shown (report : ErrorReport) : String :=
  "DynamoDBError(" ++ report.code.text ++ "): " ++ report.message

end ErrorReport
end ItemStore
