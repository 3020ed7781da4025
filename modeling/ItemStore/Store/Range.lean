import ItemStore.Dict.Sorted
import ItemStore.Key.SortCondition
import ItemStore.Store.Basic

/-!
Reading a range of rows: from where the rows that match can begin to where none can follow, in
either direction, and no more of them than asked for.
-/

namespace ItemStore

/-- The rows of one partition whose sort value meets a condition, or all rows of a space, after a
given key. -/
structure RangeQuery where
  hash : Option KeyValue
  condition : Option SortCondition
  forward : Bool
  after : Option RowKey
  limit : Option Nat
deriving DecidableEq

namespace RangeQuery

def all : RangeQuery := ⟨none, none, true, none, none⟩

def start (after : Option (List KeyValue)) (condition : Option SortCondition) :
    Bound (List KeyValue) :=
  match after, condition.bind SortCondition.lowerBound? with
  | none, none => .unbounded
  | some sort, none => .excluded sort
  | none, some low => .included [low]
  | some sort, some low =>
      if sort.head?.any fun first => (compare first low).isGE then .excluded sort
      else .included [low]

def sortMatches (condition : Option SortCondition) (sort : List KeyValue) : Bool :=
  match condition, sort.head? with
  | none, _ => true
  | some condition, some value => condition.matching value
  | some _, none => false

def beyond (past : SortCondition → KeyValue → Bool) (condition : Option SortCondition)
    (sort : List KeyValue) : Bool :=
  match condition, sort.head? with
  | some condition, some value => past condition value
  | _, _ => false

def matching (condition : Option SortCondition) (row : Row) : Bool :=
  sortMatches condition row.key.sort

def above (condition : Option SortCondition) (row : Row) : Bool :=
  beyond SortCondition.isAbove condition row.key.sort

def below (condition : Option SortCondition) (row : Row) : Bool :=
  beyond SortCondition.isBelow condition row.key.sort

def ascending (after : Option (List KeyValue)) (condition : Option SortCondition)
    (rows : List Row) : List Row :=
  ((rows.dropWhile fun row => !(start after condition).admitsFrom row.key.sort).takeWhile
    fun row => !above condition row).filter (matching condition)

def descending (after : Option (List KeyValue)) (condition : Option SortCondition)
    (rows : List Row) : List Row :=
  let earlier := rows.takeWhile fun row =>
    after.all fun sort => (compare row.key.sort sort).isLT
  ((earlier.reverse.dropWhile (above condition)).takeWhile
    fun row => !below condition row).filter (matching condition)

def unconditional (forward : Bool) (after : Option RowKey) (rows : List Row) : List Row :=
  if forward then
    rows.dropWhile fun row => after.any fun key => (compare row.key key).isLE
  else
    (rows.takeWhile fun row => after.all fun key => (compare row.key key).isLT).reverse

def run (query : RangeQuery) (rows : List Row) : List Row :=
  let found :=
    match query.hash with
    | none => unconditional query.forward query.after rows
    | some hash =>
        let partition := rows.filter fun row => row.key.hash == hash
        let after := (query.after.filter fun key => key.hash == hash).map RowKey.sort
        if query.forward then ascending after query.condition partition
        else descending after query.condition partition
  match query.limit with
  | none => found
  | some limit => found.take limit

end RangeQuery

namespace Store

def query (store : Store) (space : Space) (query : RangeQuery) : List Row :=
  query.run (store.rowsOf space)

end Store
end ItemStore
