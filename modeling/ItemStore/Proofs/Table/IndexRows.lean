import ItemStore.Proofs.Outcomes
import ItemStore.Proofs.Value.Ordered
import ItemStore.Table.IndexRow

/-!
Rows of an index name the item that they are about, so that no two items share one.
-/

namespace ItemStore

namespace Index

def owner? (index : Index) (key : RowKey) : Option RowKey :=
  match index.sortKey, key.sort with
  | none, hash :: sort => some ⟨hash, sort⟩
  | some _, _ :: hash :: sort => some ⟨hash, sort⟩
  | _, _ => none

variable {index : Index} {table : Table} {item : Item}

theorem owner?_of_rowKey? {key base : RowKey} (formed : index.rowKey? table item = .ok (some key))
    (own : table.rowKey item = .ok base) : index.owner? key = some base := by
  rw [rowKey?] at formed
  split at formed
  · cases formed
  · rename_i noSort
    obtain ⟨hash, _, formed⟩ := bind_ok formed
    obtain ⟨found, same, formed⟩ := bind_ok formed
    rw [own] at same
    cases same
    cases formed
    simp [owner?, noSort]
  · rename_i sorted
    split at formed
    · cases formed
    · obtain ⟨sort, _, formed⟩ := bind_ok formed
      obtain ⟨hash, _, formed⟩ := bind_ok formed
      obtain ⟨found, same, formed⟩ := bind_ok formed
      rw [own] at same
      cases same
      cases formed
      simp [owner?, sorted]

theorem ordered_project (ordered : item.Ordered) (index : Index) (table : Table) :
    (index.project table item).Ordered :=
  Item.ordered_filter ordered _

end Index

theorem Table.checkIndexKeys_iff {table : Table} {item : Item} :
    table.checkIndexKeys item = .ok () ↔
      ∀ index ∈ table.indexes, ∃ key, index.rowKey? table item = .ok key := by
  rw [checkIndexKeys]
  induction table.indexes with
  | nil => simp [pure, Except.pure]
  | cons index rest ih =>
      rw [List.forM, List.forall_mem_cons, ← ih]
      cases formed : index.rowKey? table item with
      | ok key => simp [bind, Except.bind, pure, Except.pure]
      | error error => simp [bind, Except.bind]

end ItemStore
