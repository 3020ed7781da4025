import ItemStore.Store.Transaction

/-!
Hooks see every change of an item before it is committed. They may write rows in the same
transaction, may fail and so undo the change, and may note it down.
-/

namespace ItemStore

inductive ChangeKind where
  | insert
  | modify
  | remove
deriving DecidableEq, Repr

namespace ChangeKind

def text : ChangeKind → String
  | .insert => "INSERT"
  | .modify => "MODIFY"
  | .remove => "REMOVE"

def between? (before after : Bool) : Option ChangeKind :=
  match before, after with
  | false, true => some .insert
  | true, true => some .modify
  | true, false => some .remove
  | false, false => none

end ChangeKind

structure Change where
  table : String
  kind : ChangeKind
  keys : Item
  old : Option Item
  new : Option Item

/-- What a hook does about a change, call by call in the open transaction. Each call goes on with
its answer, or with none where the store refuses it. -/
inductive HookProgram where
  | done
  | fail (message : String)
  | note (change : Change) (next : HookProgram)
  | get (space : Space) (key : RowKey) (next : Option (Option Document) → HookProgram)
  | query (space : Space) (range : RangeQuery) (next : Option (List Row) → HookProgram)
  | put (space : Space) (key : RowKey) (document : Document)
      (next : Option (Option Document) → HookProgram)
  | delete (space : Space) (key : RowKey) (next : Option (Option Document) → HookProgram)

structure HookResult where
  outcome : Except String Unit
  transaction : Transaction
  noted : List Change

def HookProgram.run (faults : List Fault) : HookProgram → Transaction → HookResult
  | .done, transaction => ⟨.ok (), transaction, []⟩
  | .fail message, transaction => ⟨.error message, transaction, []⟩
  | .note change next, transaction =>
      let result := next.run faults transaction
      { result with noted := change :: result.noted }
  | .get space key next, transaction =>
      if refused faults .get (some space) then (next none).run faults transaction
      else (next (some (transaction.get? space key))).run faults transaction
  | .query space range next, transaction =>
      if refused faults .query (some space) then (next none).run faults transaction
      else (next (some (transaction.query space range))).run faults transaction
  | .put space key document next, transaction =>
      if refused faults .put (some space) then (next none).run faults transaction
      else
        let (previous, written) := transaction.put space key document
        (next (some previous)).run faults written
  | .delete space key next, transaction =>
      if refused faults .delete (some space) then (next none).run faults transaction
      else
        let (previous, written) := transaction.delete space key
        (next (some previous)).run faults written

abbrev Hook := Change → HookProgram

namespace Hook

def record : Hook := fun change => .note change .done

def touches (change : Change) (name : String) : Bool :=
  let image := if change.kind == .remove then change.old else change.new
  image.any fun item => item.contains name

def fail (kind : Option ChangeKind) (name : Option String) (message : String) : Hook :=
  fun change =>
    if kind.all (· == change.kind) && name.all (touches change) then .fail message else .done

def serial (count : Nat) : String :=
  let digits := Nat.toDigits 10 count
  String.ofList (List.replicate (4 - digits.length) '0' ++ digits)

def refusedMessage : String := "backing store failure: refused"

def audit (table : String) : Hook := fun change =>
  let space : Space := ⟨table, none⟩
  .query space .all fun
    | none => .fail refusedMessage
    | some rows =>
        let id := serial rows.length
        let item : Item := Dict.ofList
          [("id", .string id), ("event", .string (change.table ++ " " ++ change.kind.text))]
        .put space ⟨.string id, []⟩ (Document.ofItem item) fun
          | none => .fail refusedMessage
          | some _ => .done

end Hook
end ItemStore
