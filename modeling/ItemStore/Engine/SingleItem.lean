import ItemStore.Engine.Execution

/-!
Requests on one item: to read it, put it, update it or delete it.
-/

namespace ItemStore
namespace Engine

def getItem (engine : Engine) (request : GetItemRequest) : Action GetItemResponse := do
  let plan ← engine.planGet request.table request.key request.projection request.names
  Action.clearLedger
  engine.begin
  let found ← engine.find plan
  engine.rollback
  let item ← projectFound plan found
  return ⟨item, ← Action.consumed request.capacity plan.table.name⟩

def checkReturnValues (value : ReturnValues) : Action Unit :=
  Action.require (value == .none || value == .allOld) (.returnValues value)

def writeAlone (engine : Engine) (plan : WritePlan) : Action (Option Item × Option Item) := do
  Action.clearLedger
  match ← engine.executeAlone plan with
  | .applied old new => return (old, new)
  | .checked => return (none, none)
  | .conditionFailed item => throw (.conditionFailed item)

def putItem (engine : Engine) (request : PutItemRequest) : Action WriteResponse := do
  let table ← engine.table request.table
  let returnValues := request.returnValues.getD .none
  checkReturnValues returnValues
  let plan ← engine.planPut table request.item request.condition request.bindings
    (FailureReturn.wantsOld request.onFailure)
  let (old, _) ← engine.writeAlone plan
  let attributes := old.filter fun _ => returnValues == .allOld
  return ⟨attributes, ← Action.consumed request.capacity table.name⟩

def deleteItem (engine : Engine) (request : DeleteItemRequest) : Action WriteResponse := do
  let table ← engine.table request.table
  let returnValues := request.returnValues.getD .none
  checkReturnValues returnValues
  let plan ← engine.planDelete table request.key request.condition request.bindings
    (FailureReturn.wantsOld request.onFailure)
  let (old, _) ← engine.writeAlone plan
  let attributes := old.filter fun _ => returnValues == .allOld
  return ⟨attributes, ← Action.consumed request.capacity table.name⟩

def updatedParts (update : Update) (bindings : Bindings) (image : Option Item) :
    Action (Option Item) :=
  match image with
  | none => pure none
  | some item => do
      let parts ← projected (some update.targets) bindings item
      return if parts.isEmpty then none else some parts

def updateAttributes (returnValues : ReturnValues) (update : Update) (bindings : Bindings)
    (old new : Option Item) : Action (Option Item) :=
  match returnValues with
  | .none => pure none
  | .allOld => pure old
  | .allNew => pure new
  | .updatedOld => updatedParts update bindings old
  | .updatedNew => updatedParts update bindings new

def updateItem (engine : Engine) (request : UpdateItemRequest) : Action WriteResponse := do
  let table ← engine.table request.table
  let plan ← engine.planUpdate table request.key request.update request.condition request.bindings
    (FailureReturn.wantsOld request.onFailure)
  let (old, new) ← engine.writeAlone plan
  let attributes ← updateAttributes (request.returnValues.getD .none) plan.updateOf
    plan.bindings old new
  return ⟨attributes, ← Action.consumed request.capacity table.name⟩

end Engine
end ItemStore
