import ItemStore.Proofs.Engine.Transactions
import ItemStore.Proofs.Table.PrimaryKeys

/-!
What an engine is for: a map from the primary keys of tables to items. Requests to write are told
here on that map alone, without documents, rows, indexes or transactions. A request is planned as
the engine plans it, and the plan then looks at what is bound to its key and at nothing else.
-/

namespace ItemStore

/-- What is bound to the primary keys of each table. Numbers in keys count as what they denote. -/
abbrev PlainMap := String → RowKey → Option Item

namespace WritePlan

/-- The condition is about the bound item, or about one of no attributes. -/
def holdsOn (plan : WritePlan) (bound : Option Item) : Except ExpressionError Bool :=
  match plan.condition with
  | none => .ok true
  | some condition => condition.evaluate plan.bindings (bound.getD [])

/-- An update starts from the bound item, or from the key alone. -/
def updatedOn (plan : WritePlan) (update : Update) (bound : Option Item) :
    Except Failure Item := do
  let item ← (update.apply plan.bindings (bound.getD plan.keyItem)).mapError .expression
  item.validate.mapError .value
  (plan.table.checkIndexKeys item).mapError .key
  if item.size ≤ maxItemSize then return item else throw (.request .itemTooLarge)

theorem updatedOn_ok {plan : WritePlan} {update : Update} {bound : Option Item}
    {item : Item}
    (applied : update.apply plan.bindings (bound.getD plan.keyItem) = .ok item)
    (valid : item.validate = .ok ()) (indexed : plan.table.checkIndexKeys item = .ok ())
    (fits : item.size ≤ maxItemSize) : plan.updatedOn update bound = .ok item := by
  simp [updatedOn, applied, valid, indexed, fits, Except.mapError, bind, Except.bind, pure,
    Except.pure]

def outcomeOn (plan : WritePlan) (bound : Option Item) : Except Failure WriteOutcome := do
  if ← (plan.holdsOn bound).mapError .expression then
    match plan.action with
    | .check => return .checked
    | .put item => return .applied bound (some item)
    | .update update => return .applied bound (some (← plan.updatedOn update bound))
    | .delete => return .applied bound none
  else return .conditionFailed (if plan.returnsOld then bound else none)

end WritePlan

namespace PlainMap

def empty : PlainMap := fun _ _ => none

def bound (map : PlainMap) (plan : WritePlan) : Option Item :=
  map plan.table.name plan.key

def outcome (map : PlainMap) (plan : WritePlan) : Except Failure WriteOutcome :=
  plan.outcomeOn (map.bound plan)

def after (map : PlainMap) (plan : WritePlan) : PlainMap :=
  match map.outcome plan with
  | .ok (.applied _ new) => itemsAfter map plan new
  | .ok .checked | .ok (.conditionFailed _) | .error _ => map

section Applied

variable {map : PlainMap} {plan : WritePlan} {old new : Option Item} {item : Item}

theorem after_of_applied (applied : map.outcome plan = .ok (.applied old new)) :
    map.after plan = itemsAfter map plan new := by
  rw [after, applied]

theorem outcome_of_put (free : plan.condition = none) (action : plan.action = .put item) :
    map.outcome plan = .ok (.applied (map.bound plan) (some item)) := by
  rw [outcome, WritePlan.outcomeOn, WritePlan.holdsOn, free, action]
  rfl

theorem outcome_of_update {update : Update} (free : plan.condition = none)
    (action : plan.action = .update update)
    (updated : plan.updatedOn update (map.bound plan) = .ok item) :
    map.outcome plan = .ok (.applied (map.bound plan) (some item)) := by
  rw [outcome, WritePlan.outcomeOn, WritePlan.holdsOn, free, action]
  show (plan.updatedOn update (map.bound plan) >>= _) = _
  rw [updated]
  rfl

end Applied

def images (map : PlainMap) (plan : WritePlan) : Except Failure (Option Item × Option Item) := do
  match ← map.outcome plan with
  | .applied old new => return (old, new)
  | .checked => return (none, none)
  | .conditionFailed item => throw (.conditionFailed item)

end PlainMap

namespace Engine

variable (engine : Engine)

def planOfPut (request : PutItemRequest) : Except Failure WritePlan := do
  let table ← (engine.table request.table).result
  (checkReturnValues (request.returnValues.getD .none)).result
  (engine.planPut table request.item request.condition request.bindings
    (FailureReturn.wantsOld request.onFailure)).result

def planOfUpdate (request : UpdateItemRequest) : Except Failure WritePlan := do
  let table ← (engine.table request.table).result
  (engine.planUpdate table request.key request.update request.condition request.bindings
    (FailureReturn.wantsOld request.onFailure)).result

def planOfDelete (request : DeleteItemRequest) : Except Failure WritePlan := do
  let table ← (engine.table request.table).result
  (checkReturnValues (request.returnValues.getD .none)).result
  (engine.planDelete table request.key request.condition request.bindings
    (FailureReturn.wantsOld request.onFailure)).result

def plansOfBatch (request : BatchWriteRequest) : Except Failure (List WritePlan) := do
  let total := sumOf (fun entry => entry.2.length) request.tables
  (Action.require (total ≠ 0) .noBatchWrites).result
  (Action.require (total ≤ maxBatchWrites) (.tooManyBatchWrites total)).result
  let writes ← (engine.planBatchWrites [] (engine.batchedWrites request)).result
  return writes.map PlannedWrite.plan

def plansOfTransaction (request : TransactWriteRequest) : Except Failure (List WritePlan) := do
  (checkTransactionSize request.writes.length).result
  (engine.planTransactWrites [] request.writes).result

end Engine

namespace PlainMap

def afterAll (map : PlainMap) (plans : List WritePlan) : PlainMap :=
  plans.foldl after map

def allSucceed (map : PlainMap) (plans : List WritePlan) : Bool :=
  plans.all fun plan => succeeded (map.outcome plan)

def afterTogether (map : PlainMap) (plans : List WritePlan) : PlainMap :=
  if map.allSucceed plans then map.afterAll plans else map

def afterPlanned {α : Type} (map : PlainMap) (planned : Except Failure α)
    (carriedOut : α → PlainMap) : PlainMap :=
  match planned with
  | .ok plan => carriedOut plan
  | .error _ => map

/-- The map after a request. One that fails, or only reads, leaves it as it is. -/
def next (engine : Engine) (map : PlainMap) : Request → PlainMap
  | .putItem request => map.afterPlanned (engine.planOfPut request) map.after
  | .updateItem request => map.afterPlanned (engine.planOfUpdate request) map.after
  | .deleteItem request => map.afterPlanned (engine.planOfDelete request) map.after
  | .batchWrite request => map.afterPlanned (engine.plansOfBatch request) map.afterAll
  | .transactWrite request =>
      map.afterPlanned (engine.plansOfTransaction request) map.afterTogether
  | .getItem _ | .query _ | .scan _ | .batchGet _ | .transactGet _ => map

end PlainMap

def Engine.HidesNothing (engine : Engine) : Prop :=
  engine.config.ttlOnRead = false ∨
    ∀ name table, engine.tables.get? name = some table → table.ttlAttribute = none

/-- Runs of requests from an empty store, with the map that the same requests make of an empty one.
The store never fails, no hook writes or fails, nothing expires, and all that is stored can be
read. -/
inductive Tracks (tables : Dict String Table) : PlainMap → Store → Prop
  | empty : Tracks tables .empty .empty
  | request {engine : Engine} {request : Request} {map : PlainMap} {session : Session}
      (before : Tracks tables map session.store) (same : engine.tables = tables)
      (quiet : ∀ hook ∈ engine.hooks, hook.Quiet) (steady : ¬engine.Fragile)
      (shown : engine.HidesNothing) (readable : session.store.Readable)
      (ordered : request.Ordered) :
      Tracks tables (map.next engine request) (engine.handle request session).2.store

structure Engine.KeyedAs (engine : Engine) (name : String) (item : Item) (table : Table)
    (key : RowKey) : Prop where
  listed : engine.tables.get? name = some table
  keyed : table.rowKey item = .ok key

/-- The writes of a batch that the engine plans: those to tables that it knows. -/
def Engine.writesToKnown (engine : Engine) (request : BatchWriteRequest) :
    List (String × BatchWrite) :=
  (request.tables.filter fun entry => engine.tables.contains entry.1).flatMap fun entry =>
    entry.2.map fun write => (entry.1, write)

structure Engine.BatchKeyed (engine : Engine) (asked : String × BatchWrite) (plan : WritePlan) :
    Prop where
  put : ∀ item, asked.2.put = some item →
    engine.KeyedAs asked.1 item plan.table plan.key ∧ plan.action = .put item
  delete : ∀ key, asked.2.delete = some key →
    engine.KeyedAs asked.1 key plan.table plan.key ∧ plan.action = .delete

structure Engine.TransactKeyed (engine : Engine) (asked : TransactWrite) (plan : WritePlan) :
    Prop where
  check : ∀ check, asked.check = some check →
    engine.KeyedAs check.table check.key plan.table plan.key ∧ plan.action = .check
  put : ∀ put, asked.put = some put →
    engine.KeyedAs put.table put.item plan.table plan.key ∧ plan.action = .put put.item
  delete : ∀ delete, asked.delete = some delete →
    engine.KeyedAs delete.table delete.key plan.table plan.key ∧ plan.action = .delete
  update : ∀ update, asked.update = some update →
    engine.KeyedAs update.table update.key plan.table plan.key ∧ plan.keyItem = update.key ∧
      ∃ parsed, plan.action = .update parsed

/-- Each plan is for the row of the item that its request names, and does what is asked for. -/
structure Engine.PlansKeyed (engine : Engine) : Prop where
  get : ∀ (request : GetItemRequest) (plan : ReadPlan),
    (engine.planGet request.table request.key request.projection request.names).result = .ok plan →
    engine.KeyedAs request.table request.key plan.table plan.key
  put : ∀ (request : PutItemRequest) (plan : WritePlan), engine.planOfPut request = .ok plan →
    engine.KeyedAs request.table request.item plan.table plan.key ∧ plan.action = .put request.item
  update : ∀ (request : UpdateItemRequest) (plan : WritePlan),
    engine.planOfUpdate request = .ok plan →
    engine.KeyedAs request.table request.key plan.table plan.key ∧ plan.keyItem = request.key ∧
      ∃ parsed, plan.action = .update parsed
  delete : ∀ (request : DeleteItemRequest) (plan : WritePlan),
    engine.planOfDelete request = .ok plan →
    engine.KeyedAs request.table request.key plan.table plan.key ∧ plan.action = .delete
  batch : ∀ (request : BatchWriteRequest) (plans : List WritePlan),
    engine.plansOfBatch request = .ok plans →
    List.Forall₂ engine.BatchKeyed (engine.writesToKnown request) plans
  transaction : ∀ (request : TransactWriteRequest) (plans : List WritePlan),
    engine.plansOfTransaction request = .ok plans →
    List.Forall₂ engine.TransactKeyed request.writes plans

/-- The engine answers as the map does. -/
structure Engine.Shows (engine : Engine) (map : PlainMap) (session : Session) : Prop where
  /-- A row key of the map is a primary key: it tells apart all items whose keys differ in a text,
  in bytes, or in the value of a number. -/
  keys : ∀ (table : Table) (a b : Item), table.SamePrimaryKey a b ↔
    ∃ key, table.rowKey a = .ok key ∧ table.rowKey b = .ok key
  plans : engine.PlansKeyed
  get : ∀ request : GetItemRequest,
    ((engine.getItem request).exec session).1.map GetItemResponse.item = do
      let plan ← (engine.planGet request.table request.key request.projection request.names).result
      (projectFound plan (map plan.table.name plan.key)).result
  whole : ∀ (request : GetItemRequest) (plan : ReadPlan), request.projection = none →
    (engine.planGet request.table request.key request.projection request.names).result = .ok plan →
    ((engine.getItem request).exec session).1.map GetItemResponse.item =
      .ok (map plan.table.name plan.key)
  spelling : ∀ (request : GetItemRequest) (key : Item), request.key.equal key = true →
    ((engine.getItem { request with key := key }).exec session).1.map GetItemResponse.item =
      ((engine.getItem request).exec session).1.map GetItemResponse.item
  put : ∀ request : PutItemRequest, (Request.putItem request).Ordered →
    ((engine.putItem request).exec session).1.map WriteResponse.attributes = do
      let (old, _) ← map.images (← engine.planOfPut request)
      return old.filter fun _ => request.returnValues.getD .none == .allOld
  update : ∀ request : UpdateItemRequest, (Request.updateItem request).Ordered →
    ((engine.updateItem request).exec session).1.map WriteResponse.attributes = do
      let plan ← engine.planOfUpdate request
      let (old, new) ← map.images plan
      (updateAttributes (request.returnValues.getD .none) plan.updateOf plan.bindings old
        new).result
  delete : ∀ request : DeleteItemRequest, (Request.deleteItem request).Ordered →
    ((engine.deleteItem request).exec session).1.map WriteResponse.attributes = do
      let (old, _) ← map.images (← engine.planOfDelete request)
      return old.filter fun _ => request.returnValues.getD .none == .allOld
  batch : ∀ request : BatchWriteRequest, (Request.batchWrite request).Ordered →
    ((engine.batchWrite request).exec session).1.map BatchWriteResponse.unprocessed = do
      let _ ← engine.plansOfBatch request
      return engine.unknownTables request.tables
  transaction : ∀ request : TransactWriteRequest, (Request.transactWrite request).Ordered →
    ((engine.transactWrite request).exec session).1.map (fun _ => ()) = do
      let plans ← engine.plansOfTransaction request
      if map.allSucceed plans then return ()
      else throw (.cancelled (plans.map fun plan => reasonFor (map.outcome plan)))

end ItemStore
