import ItemStore.Config
import ItemStore.Engine.Failure
import ItemStore.Engine.Hook
import ItemStore.Expression.Placeholders
import ItemStore.Table.IndexRow

/-!
An engine answers requests on the tables of one store. A request runs in a session, which holds the
store, the transaction that is open, what hooks noted, and the charges so far.
-/

namespace ItemStore

structure Engine where
  tables : Dict String Table
  config : Config
  hooks : List Hook
  faults : List Fault
  now : Int

structure Session where
  transaction : Transaction
  journal : List Change
  ledger : Ledger

namespace Session

def ofStore (store : Store) : Session := ⟨Transaction.begin store, [], []⟩

/-- The rows that are committed. A transaction that is left open is taken back. -/
def store (session : Session) : Store :=
  session.transaction.rollback

end Session

/-- A computation in a session. What a session holds outlasts a failure. -/
abbrev Action (α : Type) := ExceptT Failure (StateM Session) α

namespace Action

variable {α ε : Type}

def ofExcept (failure : ε → Failure) : Except ε α → Action α
  | .ok value => pure value
  | .error error => throw (failure error)

def expression (result : Except ExpressionError α) : Action α := ofExcept .expression result

def key (result : Except KeyError α) : Action α := ofExcept .key result

def value (result : Except ValueError α) : Action α := ofExcept .value result

def refuse (fault : RequestFault) : Action α :=
  throw (.request fault)

def require (condition : Bool) (fault : RequestFault) : Action Unit :=
  if condition then pure () else refuse fault

def attempt (action : Action α) : Action (Except Failure α) :=
  ExceptT.lift action.run

def chargeRead (space : Space) (bytes : Nat) : Action Unit :=
  modify fun session => { session with ledger := session.ledger.chargeRead space bytes }

def chargeWrite (space : Space) (bytes : Nat) : Action Unit :=
  modify fun session => { session with ledger := session.ledger.chargeWrite space bytes }

def scaleCharges (factor : Nat) : Action Unit :=
  modify fun session => { session with ledger := session.ledger.scale factor }

def clearLedger : Action Unit :=
  modify fun session => { session with ledger := [] }

def consumed (detail : Option CapacityDetail) (table : String) :
    Action (Option ConsumedCapacity) := do
  return (← get).ledger.consumed detail table

def consumedAll (detail : Option CapacityDetail) : Action (List ConsumedCapacity) := do
  return (← get).ledger.consumedAll detail

end Action

def Item.sizeOf? (item : Option Item) : Nat :=
  (item.map Item.size).getD 0

namespace Engine

def table (engine : Engine) (name : String) : Action Table :=
  match engine.tables.get? name with
  | some table => pure table
  | none => throw (.tableNotFound name)

def call (engine : Engine) (call : StoreCall) (space : Option Space) : Action Unit :=
  if refused engine.faults call space then throw .store else pure ()

def begin (engine : Engine) : Action Unit := do
  engine.call .begin none
  modify fun session => { session with transaction := Transaction.begin session.store }

def commit (engine : Engine) : Action Unit := do
  engine.call .commit none
  modify fun session => { session with transaction := Transaction.begin session.transaction.commit }

def rollback (engine : Engine) : Action Unit := do
  engine.call .rollback none
  modify fun session =>
    { session with transaction := Transaction.begin session.transaction.rollback }

def putRow (engine : Engine) (space : Space) (key : RowKey) (document : Document) :
    Action Unit := do
  engine.call .put (some space)
  modify fun session =>
    { session with transaction := (session.transaction.put space key document).2 }

def deleteRow (engine : Engine) (space : Space) (key : RowKey) : Action Unit := do
  engine.call .delete (some space)
  modify fun session => { session with transaction := (session.transaction.delete space key).2 }

def queryRows (engine : Engine) (space : Space) (query : RangeQuery) : Action (List Row) := do
  engine.call .query (some space)
  return (← get).transaction.query space query

def readDocument (document : Document) : Action Item :=
  match document.toItem? with
  | some item => pure item
  | none => throw .store

def load (engine : Engine) (table : Table) (key : RowKey) : Action (Option Item) := do
  let space : Space := ⟨table.name, none⟩
  engine.call .get (some space)
  match (← get).transaction.get? space key with
  | none => return none
  | some document => return some (← readDocument document)

def isExpired (engine : Engine) (table : Table) (item : Item) : Bool :=
  engine.config.ttlOnRead &&
    match table.ttlAttribute.bind item.get? with
    | some (.number text) =>
        match Number.parse text with
        | .ok expiry => (compare expiry.value (Decimal.ofInt engine.now)).isLT
        | .error _ => false
    | _ => false

def visible (engine : Engine) (table : Table) (stored : Option Item) : Option Item :=
  stored.filter fun item => !engine.isExpired table item

def checkPlaceholders {α : Type} (engine : Engine) (used : Placeholders)
    (names : Dict String String) (values : Dict String α) : Action Unit :=
  if engine.config.strictPlaceholders then
    Action.expression (used.checkAllUsed names values)
  else pure ()

def notify (engine : Engine) (change : Change) : List Hook → Action Unit
  | [] => pure ()
  | hook :: rest => do
      let session ← get
      let result := (hook change).run engine.faults session.transaction
      set { session with
        transaction := result.transaction
        journal := session.journal ++ result.noted }
      match result.outcome with
      | .ok _ => notify engine change rest
      | .error message => throw (.hook message)

end Engine
end ItemStore
