import ItemStore.Dict.Lemmas
import ItemStore.Key.Order
import ItemStore.Value.Document

/-!
The store: documents under row keys, in many spaces. Its rows are kept in the order of spaces and
keys.
-/

namespace ItemStore

structure Address where
  space : Space
  key : RowKey
deriving DecidableEq

instance : Ord Address where
  compare a b := (compare a.space b.space).then (compare a.key b.key)

instance : Std.TransOrd Address :=
  inferInstanceAs (Std.TransCmp (compareLex (compareOn Address.space) (compareOn Address.key)))

instance : Std.LawfulEqOrd Address where
  compare_self := Std.ReflOrd.compare_self
  eq_of_compare := eq_of_compareLex Address.space Address.key fun
    | ⟨_, _⟩, ⟨_, _⟩, rfl, rfl => rfl

structure Row where
  key : RowKey
  document : Document
deriving DecidableEq

structure Store where
  rows : Dict Address Document
  ascending : rows.Ascending
deriving DecidableEq

namespace Store

def empty : Store := ⟨[], Dict.ascending_nil⟩

def get? (store : Store) (space : Space) (key : RowKey) : Option Document :=
  store.rows.get? ⟨space, key⟩

def put (store : Store) (space : Space) (key : RowKey) (document : Document) : Store :=
  ⟨store.rows.insert ⟨space, key⟩ document, Dict.ascending_insert store.ascending _ _⟩

def delete (store : Store) (space : Space) (key : RowKey) : Store :=
  ⟨store.rows.erase ⟨space, key⟩, Dict.ascending_erase store.ascending _⟩

def rowsOf (store : Store) (space : Space) : List Row :=
  store.rows.filterMap fun entry =>
    if entry.1.space = space then some ⟨entry.1.key, entry.2⟩ else none

def rowCount (store : Store) (space : Space) : Nat :=
  (store.rowsOf space).length

end Store
end ItemStore
