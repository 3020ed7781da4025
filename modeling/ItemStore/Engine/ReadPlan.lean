import ItemStore.Engine.Basic
import ItemStore.Expression.Projection

/-!
Read plans: requests to read one item, after all has been checked that does not depend on what is
stored.
-/

namespace ItemStore

structure ReadPlan where
  table : Table
  key : RowKey
  paths : Option (List Path)
  names : Dict String String

namespace ReadPlan

def space (plan : ReadPlan) : Space := ⟨plan.table.name, none⟩

end ReadPlan

namespace Engine

def parseProjection (text : Option String) : Action (Option (List Path)) :=
  match text with
  | none => pure none
  | some text => do return some (← Action.expression (Projection.parse text))

def parsePaths (engine : Engine) (text : Option String) (names : Dict String String) :
    Action (Option (List Path)) := do
  let paths ← parseProjection text
  engine.checkPlaceholders (.ofOption .ofPaths paths) names ([] : Item)
  return paths

def projected (paths : Option (List Path)) (bindings : Bindings) (item : Item) : Action Item :=
  match paths with
  | none => pure item
  | some paths => Action.expression (Projection.apply paths bindings item)

def keyOf (table : Table) (key : Item) : Action RowKey := do
  Action.key (table.checkKeyMap key)
  Action.key (table.rowKey key)

def planGet (engine : Engine) (tableName : String) (key : Item) (projection : Option String)
    (names : Dict String String) : Action ReadPlan := do
  let table ← engine.table tableName
  let key ← keyOf table key
  let paths ← engine.parsePaths projection names
  return ⟨table, key, paths, names⟩

def find (engine : Engine) (plan : ReadPlan) : Action (Option Item) := do
  let stored ← engine.load plan.table plan.key
  Action.chargeRead plan.space (Item.sizeOf? stored)
  return engine.visible plan.table stored

def projectFound (plan : ReadPlan) (found : Option Item) : Action (Option Item) :=
  match found with
  | none => pure none
  | some item => do return some (← projected plan.paths ⟨plan.names, []⟩ item)

def fetch (engine : Engine) (plan : ReadPlan) : Action (Option Item) := do
  projectFound plan (← engine.find plan)

end Engine
end ItemStore
