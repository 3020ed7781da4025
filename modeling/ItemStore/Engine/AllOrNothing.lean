import ItemStore.Engine.Batch

/-!
Transactions over many items: all reads see one state, and the writes are carried out together or
not at all. They are charged twice.
-/

namespace ItemStore
namespace Engine

def checkTransactionSize (count : Nat) : Action Unit := do
  Action.require (count ≠ 0) .noTransactionItems
  Action.require (count ≤ maxTransactionItems) .tooManyTransactionItems

def transactGet (engine : Engine) (request : TransactGetRequest) : Action TransactGetResponse := do
  checkTransactionSize request.gets.length
  let plans ← request.gets.mapM fun get =>
    engine.planGet get.table get.key get.projection get.names
  Action.clearLedger
  engine.begin
  let items ← plans.mapM engine.fetch
  engine.rollback
  Action.scaleCharges 2
  return ⟨items, ← Action.consumedAll request.capacity⟩

def planTransactWrite (engine : Engine) (request : TransactWrite) : Action WritePlan :=
  match request.check, request.put, request.delete, request.update with
  | some check, none, none, none => do
      let table ← engine.table check.table
      engine.planCheck table check.key check.condition check.bindings
        (FailureReturn.wantsOld check.onFailure)
  | none, some put, none, none => do
      let table ← engine.table put.table
      engine.planPut table put.item put.condition put.bindings
        (FailureReturn.wantsOld put.onFailure)
  | none, none, some delete, none => do
      let table ← engine.table delete.table
      engine.planDelete table delete.key delete.condition delete.bindings
        (FailureReturn.wantsOld delete.onFailure)
  | none, none, none, some update => do
      let table ← engine.table update.table
      engine.planUpdate table update.key (some update.update) update.condition update.bindings
        (FailureReturn.wantsOld update.onFailure)
  | _, _, _, _ => Action.refuse .transactionItemKind

def planTransactWrites (engine : Engine) :
    List WritePlan → List TransactWrite → Action (List WritePlan)
  | planned, [] => pure planned
  | planned, request :: rest => do
      let plan ← engine.planTransactWrite request
      Action.require (!repeats planned plan) .repeatedTransactionItem
      planTransactWrites engine (planned ++ [plan]) rest

def reasonOf (outcome : Except Failure WriteOutcome) : Action CancellationReason :=
  match outcome with
  | .ok (.conditionFailed item) =>
      pure ⟨.conditionalCheckFailed, some Failure.conditionFailedMessage, item⟩
  | .ok (.applied _ _) | .ok .checked => pure ⟨.none, none, none⟩
  | .error failure =>
      if failure.code == .validation then
        pure ⟨.validationError, some failure.report.message, none⟩
      else throw failure

def perform (engine : Engine) (plan : WritePlan) : Action CancellationReason := do
  reasonOf (← Action.attempt (engine.execute plan))

def transactWrite (engine : Engine) (request : TransactWriteRequest) :
    Action TransactWriteResponse := do
  checkTransactionSize request.writes.length
  let plans ← engine.planTransactWrites [] request.writes
  Action.clearLedger
  engine.begin
  let reasons ← plans.mapM engine.perform
  if reasons.all fun reason => reason.code == .none then
    engine.commit
    Action.scaleCharges 2
    return ⟨← Action.consumedAll request.capacity⟩
  else do
    engine.rollback
    throw (.cancelled reasons)

end Engine
end ItemStore
