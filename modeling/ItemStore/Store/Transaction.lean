import ItemStore.Store.Range

/-!
Transactions write in place and log what each write replaced, so that they can be taken back from
the last write to the first. A store may refuse calls; a refused call changes nothing.
-/

namespace ItemStore

inductive StoreCall where
  | begin
  | get
  | put
  | delete
  | query
  | commit
  | rollback
deriving DecidableEq, Repr

structure Fault where
  call : StoreCall
  space : Option Space
deriving DecidableEq

namespace Fault

def covers (fault : Fault) (call : StoreCall) (space : Option Space) : Bool :=
  fault.call == call && (fault.space.isNone || fault.space == space)

end Fault

def refused (faults : List Fault) (call : StoreCall) (space : Option Space) : Bool :=
  faults.any fun fault => fault.covers call space

structure UndoEntry where
  space : Space
  key : RowKey
  previous : Option Document
deriving DecidableEq

def UndoEntry.revert (rows : Store) (entry : UndoEntry) : Store :=
  match entry.previous with
  | some document => rows.put entry.space entry.key document
  | none => rows.delete entry.space entry.key

/-- The rows as they are now, and the writes since the transaction began, last first. -/
structure Transaction where
  rows : Store
  undo : List UndoEntry
deriving DecidableEq

namespace Transaction

def begin (store : Store) : Transaction := ⟨store, []⟩

def get? (transaction : Transaction) (space : Space) (key : RowKey) : Option Document :=
  transaction.rows.get? space key

def put (transaction : Transaction) (space : Space) (key : RowKey) (document : Document) :
    Option Document × Transaction :=
  let previous := transaction.get? space key
  (previous, ⟨transaction.rows.put space key document, ⟨space, key, previous⟩ :: transaction.undo⟩)

def delete (transaction : Transaction) (space : Space) (key : RowKey) :
    Option Document × Transaction :=
  match transaction.get? space key with
  | none => (none, transaction)
  | some document =>
      (some document,
        ⟨transaction.rows.delete space key, ⟨space, key, some document⟩ :: transaction.undo⟩)

def query (transaction : Transaction) (space : Space) (query : RangeQuery) : List Row :=
  transaction.rows.query space query

def commit (transaction : Transaction) : Store :=
  transaction.rows

def rollback (transaction : Transaction) : Store :=
  transaction.undo.foldl UndoEntry.revert transaction.rows

end Transaction
end ItemStore
