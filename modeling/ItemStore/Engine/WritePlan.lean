import ItemStore.Engine.ReadPlan
import ItemStore.Expression.Condition.Parse
import ItemStore.Expression.Update.Parse
import ItemStore.Expression.Update.Targets

/-!
Write plans: requests to write one item, after all has been checked that does not depend on what is
stored.
-/

namespace ItemStore

inductive WriteAction where
  | put (item : Item)
  | update (update : Update)
  | delete
  | check

structure WritePlan where
  table : Table
  key : RowKey
  keyItem : Item
  action : WriteAction
  condition : Option Condition
  bindings : Bindings
  returnsOld : Bool

namespace WritePlan

def space (plan : WritePlan) : Space := ⟨plan.table.name, none⟩

def updateOf (plan : WritePlan) : Update :=
  match plan.action with
  | .update update => update
  | _ => Update.empty

end WritePlan

def FailureReturn.wantsOld (value : Option FailureReturn) : Bool :=
  value == some .allOld

namespace Engine

def checkItemSize (size : Nat) : Action Unit :=
  Action.require (size ≤ maxItemSize) .itemTooLarge

def parseCondition (text : Option String) : Action (Option Condition) :=
  match text with
  | none => pure none
  | some text => do return some (← Action.expression (Condition.parse text))

def checkBindings (engine : Engine) (used : Placeholders) (bindings : Bindings) : Action Unit := do
  engine.checkPlaceholders used bindings.names bindings.values
  Action.value (Item.validate bindings.values)

def planPut (engine : Engine) (table : Table) (item : Item) (condition : Option String)
    (bindings : Bindings) (returnsOld : Bool) : Action WritePlan := do
  Action.value item.validate
  let key ← Action.key (table.rowKey item)
  checkItemSize item.size
  Action.key (table.checkIndexKeys item)
  let condition ← parseCondition condition
  engine.checkBindings (.ofOption .ofCondition condition) bindings
  return {
    table, key, condition, bindings, returnsOld
    keyItem := table.keyAttributes item
    action := .put item }

def parseUpdate (text : Option String) : Action Update :=
  match text with
  | none => pure Update.empty
  | some text => Action.expression (Update.parse text)

def planUpdate (engine : Engine) (table : Table) (key : Item) (update condition : Option String)
    (bindings : Bindings) (returnsOld : Bool) : Action WritePlan := do
  let rowKey ← keyOf table key
  let update ← parseUpdate update
  let condition ← parseCondition condition
  Action.expression (update.validate bindings table.keyNames)
  engine.checkBindings (.ofUpdate update ++ .ofOption .ofCondition condition) bindings
  return {
    table, condition, bindings, returnsOld
    key := rowKey
    keyItem := key
    action := .update update }

def planDelete (engine : Engine) (table : Table) (key : Item) (condition : Option String)
    (bindings : Bindings) (returnsOld : Bool) : Action WritePlan := do
  let rowKey ← keyOf table key
  let condition ← parseCondition condition
  engine.checkBindings (.ofOption .ofCondition condition) bindings
  return {
    table, condition, bindings, returnsOld
    key := rowKey
    keyItem := key
    action := .delete }

def planCheck (engine : Engine) (table : Table) (key : Item) (condition : String)
    (bindings : Bindings) (returnsOld : Bool) : Action WritePlan := do
  let rowKey ← keyOf table key
  let condition ← Action.expression (Condition.parse condition)
  engine.checkBindings (.ofCondition condition) bindings
  return {
    table, bindings, returnsOld
    key := rowKey
    keyItem := key
    condition := some condition
    action := .check }

end Engine
end ItemStore
