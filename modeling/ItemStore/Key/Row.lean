import ItemStore.Key.Value

/-!
Row keys, and the spaces that rows are kept in: one for each table and one for each index.
-/

namespace ItemStore

structure RowKey where
  hash : KeyValue
  sort : List KeyValue
deriving DecidableEq

instance : Ord RowKey where
  compare a b := (compare a.hash b.hash).then (compare a.sort b.sort)

structure Space where
  table : String
  index : Option String
deriving DecidableEq

instance : Ord Space where
  compare a b := (compare a.table b.table).then (compare a.index b.index)

def Space.text (space : Space) : String :=
  match space.index with
  | none => space.table
  | some index => space.table ++ "/" ++ index

end ItemStore
