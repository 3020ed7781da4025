import ItemStore.Engine.WritePlan
import ItemStore.Expression.Condition.Evaluate
import ItemStore.Expression.Update.Apply

/-!
Carrying out a write plan in the open transaction: the condition, the item's row, the rows of the
indexes, the hooks. Alone, a plan has a transaction to itself.
-/

namespace ItemStore

inductive WriteOutcome where
  | applied (old new : Option Item)
  | checked
  | conditionFailed (item : Option Item)

namespace Engine

def updatedItem (plan : WritePlan) (update : Update) (current : Option Item) : Action Item := do
  let item ← Action.expression (update.apply plan.bindings (current.getD plan.keyItem))
  Action.value item.validate
  Action.key (plan.table.checkIndexKeys item)
  return item

def conditionHolds (plan : WritePlan) (current : Option Item) : Action Bool :=
  match plan.condition with
  | none => pure true
  | some condition => Action.expression (condition.evaluate plan.bindings (current.getD []))

def writeBase (engine : Engine) (plan : WritePlan) (stored new : Option Item) : Action Unit := do
  let size ← match new with
    | some item => do
        let document := Document.ofItem item
        checkItemSize document.size
        engine.putRow plan.space plan.key document
        pure document.size
    | none => do
        if stored.isSome then engine.deleteRow plan.space plan.key
        pure 0
  Action.chargeWrite plan.space (max (Item.sizeOf? stored) size)

def putIndexRow (engine : Engine) (space : Space) (key : RowKey) (item : Item) : Action Unit := do
  let document := Document.ofItem item
  Action.chargeWrite space document.size
  engine.putRow space key document

def deleteIndexRow (engine : Engine) (space : Space) (key : RowKey) (item : Item) :
    Action Unit := do
  engine.deleteRow space key
  Action.chargeWrite space item.size

def oldIndexRow (table : Table) (index : Index) (stored : Option Item) : Option (RowKey × Item) :=
  stored.bind fun item =>
    match index.rowKey? table item with
    | .ok (some key) => some (key, index.project table item)
    | _ => none

def newIndexRow (table : Table) (index : Index) (new : Option Item) :
    Except KeyError (Option (RowKey × Item)) :=
  match new with
  | none => .ok none
  | some item => do
      match ← index.rowKey? table item with
      | none => return none
      | some key => return some (key, index.project table item)

/-- Brings one index in step with a change. A row that stays where it is and keeps equal values is
left as it was written. -/
def maintainIndex (engine : Engine) (table : Table) (stored new : Option Item) (index : Index) :
    Action Unit := do
  let space : Space := ⟨table.name, some index.name⟩
  let replacement ← Action.key (newIndexRow table index new)
  match oldIndexRow table index stored, replacement with
  | some (oldKey, oldItem), some (newKey, newItem) =>
      if oldKey = newKey then
        if Item.equal oldItem newItem then pure () else engine.putIndexRow space newKey newItem
      else do
        engine.deleteIndexRow space oldKey oldItem
        engine.putIndexRow space newKey newItem
  | some (oldKey, oldItem), none => engine.deleteIndexRow space oldKey oldItem
  | none, some (newKey, newItem) => engine.putIndexRow space newKey newItem
  | none, none => pure ()

def announce (engine : Engine) (plan : WritePlan) (stored new : Option Item) : Action Unit :=
  match ChangeKind.between? stored.isSome new.isSome with
  | none => pure ()
  | some kind =>
      engine.notify ⟨plan.table.name, kind, plan.keyItem, stored, new⟩ engine.hooks

def replace (engine : Engine) (plan : WritePlan) (stored new : Option Item) :
    Action WriteOutcome := do
  engine.writeBase plan stored new
  plan.table.indexes.forM (engine.maintainIndex plan.table stored new)
  engine.announce plan stored new
  return .applied (engine.visible plan.table stored) new

def execute (engine : Engine) (plan : WritePlan) : Action WriteOutcome := do
  let stored ← engine.load plan.table plan.key
  let current := engine.visible plan.table stored
  if ← conditionHolds plan current then
    match plan.action with
    | .check => do
        Action.chargeRead plan.space (Item.sizeOf? current)
        return .checked
    | .put item => engine.replace plan stored (some item)
    | .update update => do
        let item ← updatedItem plan update current
        engine.replace plan stored (some item)
    | .delete => engine.replace plan stored none
  else do
    Action.chargeWrite plan.space (Item.sizeOf? current)
    return .conditionFailed (if plan.returnsOld then current else none)

def executeAlone (engine : Engine) (plan : WritePlan) : Action WriteOutcome := do
  engine.begin
  let outcome ← engine.execute plan
  match outcome with
  | .conditionFailed _ => engine.rollback
  | .applied _ _ | .checked => engine.commit
  return outcome

end Engine
end ItemStore
