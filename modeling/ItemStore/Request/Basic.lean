import ItemStore.Expression.Bindings

/-!
The requests that an engine answers. Expressions come as texts; what a request leaves out is none.
-/

namespace ItemStore

inductive ReturnValues where
  | none
  | allOld
  | updatedOld
  | allNew
  | updatedNew
deriving DecidableEq, Repr

namespace ReturnValues

def text : ReturnValues → String
  | .none => "NONE"
  | .allOld => "ALL_OLD"
  | .updatedOld => "UPDATED_OLD"
  | .allNew => "ALL_NEW"
  | .updatedNew => "UPDATED_NEW"

def all : List ReturnValues := [.none, .allOld, .updatedOld, .allNew, .updatedNew]

end ReturnValues

inductive FailureReturn where
  | allOld
  | none
deriving DecidableEq, Repr

namespace FailureReturn

def text : FailureReturn → String
  | .allOld => "ALL_OLD"
  | .none => "NONE"

def all : List FailureReturn := [.allOld, .none]

end FailureReturn

inductive CapacityDetail where
  | indexes
  | total
  | none
deriving DecidableEq, Repr

namespace CapacityDetail

def text : CapacityDetail → String
  | .indexes => "INDEXES"
  | .total => "TOTAL"
  | .none => "NONE"

def all : List CapacityDetail := [.indexes, .total, .none]

end CapacityDetail

inductive Select where
  | allAttributes
  | allProjectedAttributes
  | specificAttributes
  | count
deriving DecidableEq, Repr

namespace Select

def text : Select → String
  | .allAttributes => "ALL_ATTRIBUTES"
  | .allProjectedAttributes => "ALL_PROJECTED_ATTRIBUTES"
  | .specificAttributes => "SPECIFIC_ATTRIBUTES"
  | .count => "COUNT"

def all : List Select := [.allAttributes, .allProjectedAttributes, .specificAttributes, .count]

end Select

structure PutItemRequest where
  table : String
  item : Item
  condition : Option String
  bindings : Bindings
  returnValues : Option ReturnValues
  onFailure : Option FailureReturn
  capacity : Option CapacityDetail

structure GetItemRequest where
  table : String
  key : Item
  consistentRead : Option Bool
  projection : Option String
  names : Dict String String
  capacity : Option CapacityDetail

structure UpdateItemRequest where
  table : String
  key : Item
  update : Option String
  condition : Option String
  bindings : Bindings
  returnValues : Option ReturnValues
  onFailure : Option FailureReturn
  capacity : Option CapacityDetail

structure DeleteItemRequest where
  table : String
  key : Item
  condition : Option String
  bindings : Bindings
  returnValues : Option ReturnValues
  onFailure : Option FailureReturn
  capacity : Option CapacityDetail

structure QueryRequest where
  table : String
  index : Option String
  keyCondition : Option String
  filter : Option String
  projection : Option String
  bindings : Bindings
  forward : Option Bool
  limit : Option Int
  startKey : Option String
  select : Option Select
  consistentRead : Option Bool
  capacity : Option CapacityDetail

structure ScanRequest where
  table : String
  index : Option String
  filter : Option String
  projection : Option String
  bindings : Bindings
  limit : Option Int
  startKey : Option String
  select : Option Select
  consistentRead : Option Bool
  capacity : Option CapacityDetail

structure KeysRequest where
  keys : List Item
  projection : Option String
  names : Dict String String
  consistentRead : Option Bool

structure BatchGetRequest where
  tables : Dict String KeysRequest
  capacity : Option CapacityDetail

structure BatchWrite where
  put : Option Item
  delete : Option Item

structure BatchWriteRequest where
  tables : Dict String (List BatchWrite)
  capacity : Option CapacityDetail

structure TransactGet where
  table : String
  key : Item
  projection : Option String
  names : Dict String String

structure TransactGetRequest where
  gets : List TransactGet
  capacity : Option CapacityDetail

structure ConditionCheck where
  table : String
  key : Item
  condition : String
  bindings : Bindings
  onFailure : Option FailureReturn

structure TransactPut where
  table : String
  item : Item
  condition : Option String
  bindings : Bindings
  onFailure : Option FailureReturn

structure TransactDelete where
  table : String
  key : Item
  condition : Option String
  bindings : Bindings
  onFailure : Option FailureReturn

structure TransactUpdate where
  table : String
  key : Item
  update : String
  condition : Option String
  bindings : Bindings
  onFailure : Option FailureReturn

structure TransactWrite where
  check : Option ConditionCheck
  put : Option TransactPut
  delete : Option TransactDelete
  update : Option TransactUpdate

structure TransactWriteRequest where
  writes : List TransactWrite
  capacity : Option CapacityDetail

inductive Request where
  | getItem (request : GetItemRequest)
  | putItem (request : PutItemRequest)
  | updateItem (request : UpdateItemRequest)
  | deleteItem (request : DeleteItemRequest)
  | query (request : QueryRequest)
  | scan (request : ScanRequest)
  | batchGet (request : BatchGetRequest)
  | batchWrite (request : BatchWriteRequest)
  | transactGet (request : TransactGetRequest)
  | transactWrite (request : TransactWriteRequest)

end ItemStore
