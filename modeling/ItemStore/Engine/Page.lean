import ItemStore.Engine.WritePlan
import ItemStore.Expression.Condition.Evaluate
import ItemStore.Expression.KeyCondition

/-!
Queries and scans: one page of the rows of a table or an index, and a cursor if there are more.
-/

namespace ItemStore

structure PagePlan where
  table : Table
  index : Option Index
  range : RangeQuery
  pageSize : Nat
  filter : Option Condition
  paths : Option (List Path)
  countOnly : Bool
  bindings : Bindings

def PagePlan.space (plan : PagePlan) : Space :=
  ⟨plan.table.name, plan.index.map Index.name⟩

structure Page where
  items : List Item
  count : Nat
  scanned : Nat
  lastReturned : Option RowKey

def Page.empty : Page := ⟨[], 0, 0, none⟩

namespace Engine

def pageIndex (table : Table) (name : Option String) : Action (Option Index) :=
  match name with
  | none => pure none
  | some name =>
      match table.index? name with
      | some index => pure (some index)
      | none => Action.refuse (.noSuchIndex name)

def checkSelect (select : Option Select) (projects onIndex : Bool) : Action Unit :=
  match select with
  | none => pure ()
  | some .specificAttributes => Action.require projects .specificAttributesUnnamed
  | some .allProjectedAttributes => do
      Action.require onIndex .projectedAttributesOfTable
      Action.require (!projects) (.projectionNotSelected .allProjectedAttributes)
  | some select => Action.require (!projects) (.projectionNotSelected select)

def pageSize (engine : Engine) (limit : Option Int) : Action Nat :=
  match limit with
  | none => pure (min engine.config.defaultPageSize engine.config.maxPageSize)
  | some limit =>
      if limit < 1 then Action.refuse .limitTooSmall
      else pure (min limit.toNat engine.config.maxPageSize)

def startKey (space : Space) (token : Option String) : Action (Option RowKey) :=
  match token with
  | none => pure none
  | some token => do return some (← Action.ofExcept .cursor (Cursor.decode space token))

def passes (filter : Option Condition) (bindings : Bindings) (item : Item) : Action Bool :=
  match filter with
  | none => pure true
  | some condition => Action.expression (condition.evaluate bindings item)

def addRow (engine : Engine) (plan : PagePlan) (page : Page) (row : Row) : Action Page := do
  let item ← readDocument row.document
  if engine.isExpired plan.table item then return page
  let page := { page with scanned := page.scanned + 1 }
  if ← passes plan.filter plan.bindings item then
    let page := { page with count := page.count + 1, lastReturned := some row.key }
    if plan.countOnly then return page
    let item ← projected plan.paths ⟨plan.bindings.names, []⟩ item
    return { page with items := page.items ++ [item] }
  else return page

def nextKey (page : Page) (rows : List Row) : Option RowKey :=
  page.lastReturned.or (rows.getLast?.map Row.key)

/-- Reads one row more than the page holds, to know whether there are more. -/
def readPage (engine : Engine) (plan : PagePlan) (detail : Option CapacityDetail) :
    Action PageResponse := do
  Action.clearLedger
  engine.begin
  let found ← engine.queryRows plan.space { plan.range with limit := some (plan.pageSize + 1) }
  engine.rollback
  let rows := found.take plan.pageSize
  let page ← rows.foldlM (engine.addRow plan) Page.empty
  Action.chargeRead plan.space (sumOf (fun row => row.document.size) rows)
  let next := if found.length > plan.pageSize then nextKey page rows else none
  return {
    items := page.items
    count := page.count
    scannedCount := page.scanned
    lastKey := next.map (Cursor.encode plan.space)
    consumed := ← Action.consumed detail plan.table.name }

def parseKeyCondition (text : Option String) : Action Condition :=
  match text with
  | none => Action.refuse .keyConditionMissing
  | some text => Action.expression (Condition.parse text)

def keySchema (table : Table) (index : Option Index) : String × Option String :=
  match index with
  | some index => (index.hashKey, index.sortKey)
  | none => (table.hashKey, table.sortKey)

def planQuery (engine : Engine) (request : QueryRequest) : Action PagePlan := do
  let table ← engine.table request.table
  let index ← pageIndex table request.index
  checkSelect request.select request.projection.isSome index.isSome
  let pageSize ← engine.pageSize request.limit
  let keyCondition ← parseKeyCondition request.keyCondition
  let filter ← parseCondition request.filter
  let paths ← parseProjection request.projection
  let bindings := request.bindings
  engine.checkPlaceholders
    (.ofCondition keyCondition ++ .ofOption .ofCondition filter ++ .ofOption .ofPaths paths)
    bindings.names bindings.values
  let (hashKey, sortKey) := keySchema table index
  let key ← Action.expression (KeyCondition.compile keyCondition bindings hashKey sortKey)
  let after ← startKey ⟨table.name, index.map Index.name⟩ request.startKey
  Action.require (after.all fun start => start.hash == key.hash) .startOfOtherPartition
  let range : RangeQuery := ⟨some key.hash, key.sort, request.forward.getD true, after, none⟩
  return ⟨table, index, range, pageSize, filter, paths, request.select == some .count, bindings⟩

def query (engine : Engine) (request : QueryRequest) : Action PageResponse := do
  let plan ← engine.planQuery request
  engine.readPage plan request.capacity

def planScan (engine : Engine) (request : ScanRequest) : Action PagePlan := do
  let table ← engine.table request.table
  let index ← pageIndex table request.index
  checkSelect request.select request.projection.isSome index.isSome
  let pageSize ← engine.pageSize request.limit
  let filter ← parseCondition request.filter
  let paths ← parseProjection request.projection
  let bindings := request.bindings
  engine.checkPlaceholders (.ofOption .ofCondition filter ++ .ofOption .ofPaths paths)
    bindings.names bindings.values
  let after ← startKey ⟨table.name, index.map Index.name⟩ request.startKey
  let range : RangeQuery := { RangeQuery.all with after := after }
  return ⟨table, index, range, pageSize, filter, paths, request.select == some .count, bindings⟩

def scan (engine : Engine) (request : ScanRequest) : Action PageResponse := do
  let plan ← engine.planScan request
  engine.readPage plan request.capacity

end Engine
end ItemStore
