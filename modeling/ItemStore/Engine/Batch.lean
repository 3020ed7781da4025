import ItemStore.Engine.Execution

/-!
Batches: many reads, or many writes, of which each stands for itself. What cannot be processed is
handed back. Tables are visited in the order of their names.
-/

namespace ItemStore
namespace Engine

def knownTables {α : Type} (engine : Engine) (tables : Dict String α) : List (Table × α) :=
  tables.filterMap fun entry => (engine.tables.get? entry.1).map fun table => (table, entry.2)

def unknownTables {α : Type} (engine : Engine) (tables : Dict String α) : Dict String α :=
  tables.filter fun entry => !engine.tables.contains entry.1

def distinctKeys (table : Table) : List RowKey → List Item → Action (List RowKey)
  | seen, [] => pure seen
  | seen, key :: rest => do
      let rowKey ← keyOf table key
      Action.require (!seen.contains rowKey) .repeatedKey
      distinctKeys table (seen ++ [rowKey]) rest

def planKeys (engine : Engine) (table : Table) (request : KeysRequest) :
    Action (List ReadPlan) := do
  let paths ← engine.parsePaths request.projection request.names
  let keys ← distinctKeys table [] request.keys
  return keys.map fun key => ⟨table, key, paths, request.names⟩

def fetchAll (engine : Engine) (tableName : String) (plans : List ReadPlan) :
    Action (String × List Item) := do
  let found ← plans.mapM engine.fetch
  return (tableName, found.filterMap id)

def batchGet (engine : Engine) (request : BatchGetRequest) : Action BatchGetResponse := do
  let total := sumOf (fun entry => entry.2.keys.length) request.tables
  Action.require (total ≠ 0) .noBatchKeys
  Action.require (total ≤ maxBatchGetKeys) (.tooManyBatchKeys total)
  let plans ← (engine.knownTables request.tables).mapM fun (table, keys) => do
    return (table.name, ← engine.planKeys table keys)
  Action.clearLedger
  engine.begin
  let found ← plans.mapM fun (name, plans) => engine.fetchAll name plans
  engine.rollback
  return {
    items := Dict.ofList found
    unprocessed := engine.unknownTables request.tables
    consumed := ← Action.consumedAll request.capacity }

structure PlannedWrite where
  table : String
  request : BatchWrite
  plan : WritePlan

def planBatchWrite (engine : Engine) (table : Table) (request : BatchWrite) : Action WritePlan :=
  match request.put, request.delete with
  | some item, none => engine.planPut table item none .none false
  | none, some key => engine.planDelete table key none .none false
  | _, _ => Action.refuse .batchWriteKind

def repeats (earlier : List WritePlan) (plan : WritePlan) : Bool :=
  earlier.any fun other => other.table.name == plan.table.name && other.key == plan.key

def planBatchWrites (engine : Engine) :
    List PlannedWrite → List (Table × BatchWrite) → Action (List PlannedWrite)
  | planned, [] => pure planned
  | planned, (table, request) :: rest => do
      let plan ← engine.planBatchWrite table request
      Action.require (!repeats (planned.map PlannedWrite.plan) plan) .repeatedKey
      planBatchWrites engine (planned ++ [⟨table.name, request, plan⟩]) rest

/-- Carries out the writes in turn, each alone, and lists those that may succeed later. Another
failure ends the batch. -/
def writeEach (engine : Engine) : List PlannedWrite → Action (List PlannedWrite)
  | [] => pure []
  | write :: rest => do
      match ← Action.attempt (engine.executeAlone write.plan) with
      | .ok _ => writeEach engine rest
      | .error failure =>
          if failure.code.isRetryable then return write :: (← writeEach engine rest)
          else throw failure

def handBack (unprocessed : Dict String (List BatchWrite)) (writes : List PlannedWrite) :
    Dict String (List BatchWrite) :=
  writes.foldl
    (fun listed write =>
      listed.insert write.table (((listed.get? write.table).getD []) ++ [write.request]))
    unprocessed

def writesOf (tables : List (Table × List BatchWrite)) : List (Table × BatchWrite) :=
  tables.flatMap fun (table, writes) => writes.map fun write => (table, write)

def batchWriteIn (engine : Engine) (order : List (Table × List BatchWrite))
    (request : BatchWriteRequest) : Action BatchWriteResponse := do
  let total := sumOf (fun entry => entry.2.length) request.tables
  Action.require (total ≠ 0) .noBatchWrites
  Action.require (total ≤ maxBatchWrites) (.tooManyBatchWrites total)
  let planned ← engine.planBatchWrites [] (writesOf order)
  Action.clearLedger
  let left ← engine.writeEach planned
  return {
    unprocessed := handBack (engine.unknownTables request.tables) left
    consumed := ← Action.consumedAll request.capacity }

def batchWrite (engine : Engine) (request : BatchWriteRequest) : Action BatchWriteResponse :=
  engine.batchWriteIn (engine.knownTables request.tables) request

end Engine
end ItemStore
