import ItemStore.Expression.Path

/-!
Update expressions: what becomes of the attributes of an item.
-/

namespace ItemStore

inductive UpdateOperand where
  | path (target : Path)
  | value (placeholder : String)
  | ifNotExists (target : Path) (default : UpdateOperand)
  | listAppend (head tail : UpdateOperand)
deriving DecidableEq, Repr

inductive SetValue where
  | operand (source : UpdateOperand)
  | plus (left right : UpdateOperand)
  | minus (left right : UpdateOperand)
deriving DecidableEq, Repr

structure Update where
  set : List (Path × SetValue)
  remove : List Path
  add : List (Path × String)
  delete : List (Path × String)
deriving DecidableEq, Repr

namespace Update

def empty : Update := ⟨[], [], [], []⟩

def isEmpty (update : Update) : Bool :=
  update.set.isEmpty && update.remove.isEmpty && update.add.isEmpty && update.delete.isEmpty

def targets (update : Update) : List Path :=
  update.set.map Prod.fst ++ update.remove ++ update.add.map Prod.fst ++
    update.delete.map Prod.fst

end Update
end ItemStore
