import ItemStore.Capacity
import ItemStore.Cursor
import ItemStore.Expression.Error
import ItemStore.Table.Key
import ItemStore.Value.Validity

/-!
Why a request fails, and the report that is made of it.
-/

namespace ItemStore

inductive RequestFault where
  | returnValues (value : ReturnValues)
  | itemTooLarge
  | projectedAttributesOfTable
  | specificAttributesUnnamed
  | projectionNotSelected (select : Select)
  | noSuchIndex (name : String)
  | limitTooSmall
  | keyConditionMissing
  | startOfOtherPartition
  | repeatedKey
  | noBatchKeys
  | tooManyBatchKeys (count : Nat)
  | noBatchWrites
  | tooManyBatchWrites (count : Nat)
  | batchWriteKind
  | noTransactionItems
  | tooManyTransactionItems
  | repeatedTransactionItem
  | transactionItemKind
deriving DecidableEq, Repr

def RequestFault.message : RequestFault → String
  | .returnValues value => "Return values set to invalid value for this operation: " ++ value.text
  | .itemTooLarge =>
      "Item size has exceeded the maximum allowed size of " ++ toString maxItemSize ++ " bytes"
  | .projectedAttributesOfTable =>
      "ALL_PROJECTED_ATTRIBUTES is only supported for queries on secondary indexes"
  | .specificAttributesUnnamed => "SPECIFIC_ATTRIBUTES requires ProjectionExpression"
  | .projectionNotSelected select =>
      "Cannot specify the ProjectionExpression when choosing to get " ++ select.text ++ " results"
  | .noSuchIndex name => "The table does not have the specified index: " ++ name
  | .limitTooSmall => "Limit must be greater than 0"
  | .keyConditionMissing => "KeyConditionExpression is required for Query"
  | .startOfOtherPartition => "The provided starting key does not match the query partition"
  | .repeatedKey => "Provided list of item keys contains duplicates"
  | .noBatchKeys =>
      "1 validation error detected: The requestItems parameter must contain at least one key"
  | .tooManyBatchKeys count =>
      "Too many items requested for the BatchGetItem call: " ++ toString count ++ " > " ++
        toString maxBatchGetKeys
  | .noBatchWrites =>
      "1 validation error detected: The requestItems parameter must contain at least one write " ++
        "request"
  | .tooManyBatchWrites count =>
      "Too many items requested for the BatchWriteItem call: " ++ toString count ++ " > " ++
        toString maxBatchWrites
  | .batchWriteKind =>
      "A WriteRequest must contain exactly one of PutRequest or DeleteRequest"
  | .noTransactionItems =>
      "1 validation error detected: Value at 'transactItems' failed to satisfy constraint: " ++
        "Member must have length greater than or equal to 1"
  | .tooManyTransactionItems =>
      "1 validation error detected: Value at 'transactItems' failed to satisfy constraint: " ++
        "Member must have length less than or equal to " ++ toString maxTransactionItems
  | .repeatedTransactionItem =>
      "Transaction request cannot include multiple operations on one item"
  | .transactionItemKind => "TransactItems can only contain one of Check, Put, Update or Delete"

inductive Failure where
  | tableNotFound (name : String)
  | expression (error : ExpressionError)
  | value (error : ValueError)
  | key (error : KeyError)
  | cursor (error : CursorError)
  | request (fault : RequestFault)
  | conditionFailed (item : Option Item)
  | cancelled (reasons : List CancellationReason)
  | hook (message : String)
  | store

namespace Failure

def conditionFailedMessage : String := "The conditional request failed"

def report : Failure → ErrorReport
  | .tableNotFound name =>
      .ofMessage .resourceNotFound ("Requested resource not found: Table: " ++ name ++ " not found")
  | .expression error => .ofMessage .validation error.message
  | .value error => .ofMessage .validation error.message
  | .key error => .ofMessage .validation error.message
  | .cursor error => .ofMessage .validation error.message
  | .request fault => .ofMessage .validation fault.message
  | .conditionFailed item =>
      { ErrorReport.ofMessage .conditionalCheckFailed conditionFailedMessage with item := item }
  | .cancelled reasons => .cancelled reasons
  | .hook message => .ofMessage .internalServerError ("Change hook failed: " ++ message)
  | .store => .ofMessage .internalServerError "Internal server error"

def code (failure : Failure) : ErrorCode :=
  failure.report.code

def isStoreFailure : Failure → Bool
  | .store => true
  | _ => false

end Failure
end ItemStore
