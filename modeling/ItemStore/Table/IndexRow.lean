import ItemStore.Table.Key

/-!
The row that an item has in an index: none without the index's key attributes, else one whose sort
values end with the item's own key, so that no two items share it.
-/

namespace ItemStore
namespace Index

def rowKey? (index : Index) (table : Table) (item : Item) : Except KeyError (Option RowKey) := do
  match item.get? index.hashKey, index.sortKey with
  | none, _ => return none
  | some hash, none =>
      let hash ← KeyValue.ofNamed index.hashKey hash
      let base ← table.rowKey item
      return some ⟨hash, base.hash :: base.sort⟩
  | some hash, some sortKey =>
      match item.get? sortKey with
      | none => return none
      | some sort =>
          let sort ← KeyValue.ofNamed sortKey sort
          let hash ← KeyValue.ofNamed index.hashKey hash
          let base ← table.rowKey item
          return some ⟨hash, sort :: base.hash :: base.sort⟩

def isKeyAttribute (index : Index) (name : String) : Bool :=
  index.hashKey == name || index.sortKey == some name

def keeps (index : Index) (table : Table) (name : String) : Bool :=
  match index.projection with
  | .all => true
  | .keysOnly => table.isKeyAttribute name || index.isKeyAttribute name
  | .including names =>
      table.isKeyAttribute name || index.isKeyAttribute name || names.contains name

def project (index : Index) (table : Table) (item : Item) : Item :=
  item.filter fun entry => index.keeps table entry.1

end Index

namespace Table

def checkIndexKeys (table : Table) (item : Item) : Except KeyError Unit :=
  table.indexes.forM fun index => do
    let _ ← index.rowKey? table item

end Table
end ItemStore
