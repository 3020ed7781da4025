import ItemStore.Engine.Hook
import ItemStore.Proofs.Store.Rows

/-!
The log of a transaction takes back all of its writes, whatever they were and whoever made them:
rolling back after a write gives what rolling back before it would have given.
-/

namespace ItemStore

theorem Store.put_previous (store : Store) {space : Space} {key : RowKey} {previous : Document}
    (found : store.get? space key = some previous) : store.put space key previous = store := by
  apply ext_at space key
  · rw [get?_put_self, found]
  · exact fun _ _ elsewhere => get?_put_of_ne store previous elsewhere

theorem Store.put_put (store : Store) (space : Space) (key : RowKey) (first second : Document) :
    (store.put space key first).put space key second = store.put space key second := by
  apply ext_at space key
  · rw [get?_put_self, get?_put_self]
  · intro other otherKey elsewhere
    rw [get?_put_of_ne _ _ elsewhere, get?_put_of_ne _ _ elsewhere, get?_put_of_ne _ _ elsewhere]

theorem Store.put_delete (store : Store) (space : Space) (key : RowKey) (document : Document) :
    (store.delete space key).put space key document = store.put space key document := by
  apply ext_at space key
  · rw [get?_put_self, get?_put_self]
  · intro other otherKey elsewhere
    rw [get?_put_of_ne _ _ elsewhere, get?_put_of_ne _ _ elsewhere, get?_delete_of_ne _ elsewhere]

theorem Store.delete_put (store : Store) {space : Space} {key : RowKey} (document : Document)
    (absent : store.get? space key = none) :
    (store.put space key document).delete space key = store := by
  apply ext_at space key
  · rw [get?_delete_self, absent]
  · intro other otherKey elsewhere
    rw [get?_delete_of_ne _ elsewhere, get?_put_of_ne _ _ elsewhere]

theorem Store.delete_absent (store : Store) {space : Space} {key : RowKey}
    (absent : store.get? space key = none) : store.delete space key = store := by
  apply ext_at space key
  · rw [get?_delete_self, absent]
  · exact fun _ _ elsewhere => get?_delete_of_ne store elsewhere

namespace UndoEntry

theorem revert_put (rows : Store) (space : Space) (key : RowKey) (document : Document) :
    revert (rows.put space key document) ⟨space, key, rows.get? space key⟩ = rows := by
  cases before : rows.get? space key with
  | none => exact Store.delete_put rows document before
  | some previous =>
      have restored := rows.put_put space key document previous
      exact restored.trans (Store.put_previous rows before)

theorem revert_delete (rows : Store) {space : Space} {key : RowKey} {document : Document}
    (before : rows.get? space key = some document) :
    revert (rows.delete space key) ⟨space, key, some document⟩ = rows :=
  (rows.put_delete space key document).trans (Store.put_previous rows before)

end UndoEntry

namespace Transaction

@[simp] theorem rollback_begin (store : Store) : (begin store).rollback = store := rfl

@[simp] theorem rows_begin (store : Store) : (begin store).rows = store := rfl

@[simp] theorem rows_put (transaction : Transaction) (space : Space) (key : RowKey)
    (document : Document) :
    (transaction.put space key document).2.rows = transaction.rows.put space key document := rfl

@[simp] theorem rows_delete (transaction : Transaction) (space : Space) (key : RowKey) :
    (transaction.delete space key).2.rows = transaction.rows.delete space key := by
  simp only [delete, get?]
  split
  · rename_i absent
    exact (transaction.rows.delete_absent absent).symm
  · rfl

@[simp] theorem rollback_put (transaction : Transaction) (space : Space) (key : RowKey)
    (document : Document) :
    (transaction.put space key document).2.rollback = transaction.rollback := by
  simp only [put, rollback, get?, List.foldl_cons, UndoEntry.revert_put]

@[simp] theorem rollback_delete (transaction : Transaction) (space : Space) (key : RowKey) :
    (transaction.delete space key).2.rollback = transaction.rollback := by
  simp only [delete, get?]
  split
  · rfl
  · rename_i found
    simp only [rollback, List.foldl_cons, UndoEntry.revert_delete _ found]

end Transaction

/-- A hook leaves nothing behind that rolling back does not take away. -/
theorem HookProgram.rollback_run (faults : List Fault) (program : HookProgram) :
    ∀ transaction : Transaction,
      (program.run faults transaction).transaction.rollback = transaction.rollback := by
  induction program with
  | done => intro transaction; rfl
  | fail message => intro transaction; rfl
  | note change next ih => exact ih
  | get space key next ih =>
      intro transaction
      simp only [run]
      split
      · exact ih _ transaction
      · exact ih _ transaction
  | query space range next ih =>
      intro transaction
      simp only [run]
      split
      · exact ih _ transaction
      · exact ih _ transaction
  | put space key document next ih =>
      intro transaction
      simp only [run]
      split
      · exact ih _ transaction
      · exact (ih _ _).trans (transaction.rollback_put space key document)
  | delete space key next ih =>
      intro transaction
      simp only [run]
      split
      · exact ih _ transaction
      · exact (ih _ _).trans (transaction.rollback_delete space key)

end ItemStore
