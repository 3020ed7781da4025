/-!
Tables: which attributes identify an item, which indexes list it, and which attribute says when it
expires.
-/

namespace ItemStore

inductive IndexProjection where
  | all
  | keysOnly
  | including (names : List String)
deriving DecidableEq, Repr

structure Index where
  name : String
  hashKey : String
  sortKey : Option String
  projection : IndexProjection
deriving DecidableEq, Repr

structure Table where
  name : String
  hashKey : String
  sortKey : Option String
  indexes : List Index
  ttlAttribute : Option String
deriving DecidableEq, Repr

namespace Table

def index? (table : Table) (name : String) : Option Index :=
  table.indexes.find? fun index => index.name == name

def isKeyAttribute (table : Table) (name : String) : Bool :=
  table.hashKey == name || table.sortKey == some name

def keyNames (table : Table) : List String :=
  table.hashKey :: table.sortKey.toList

end Table
end ItemStore
