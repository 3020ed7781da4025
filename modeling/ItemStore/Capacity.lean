import ItemStore.Key.Row
import ItemStore.Response.Basic

/-!
Consumed capacity: a ledger of charges, each for the rows of one space, and the sums that a response
tells of it.
-/

namespace ItemStore

variable {α : Type}

def sumOf (measure : α → Nat) : List α → Nat
  | [] => 0
  | head :: rest => measure head + sumOf measure rest

def maxItemSize : Nat := 400000

def maxBatchGetKeys : Nat := 100

def maxBatchWrites : Nat := 25

def maxTransactionItems : Nat := 25

def unitsFor (size bytes : Nat) : Nat :=
  max 1 ((bytes + (size - 1)) / size)

def readUnits (bytes : Nat) : Nat :=
  unitsFor 4096 bytes

def writeUnits (bytes : Nat) : Nat :=
  unitsFor 1024 bytes

structure Charge where
  space : Space
  reads : Nat
  writes : Nat
deriving DecidableEq

abbrev Ledger := List Charge

namespace Ledger

def chargeRead (ledger : Ledger) (space : Space) (bytes : Nat) : Ledger :=
  ledger ++ [⟨space, readUnits bytes, 0⟩]

def chargeWrite (ledger : Ledger) (space : Space) (bytes : Nat) : Ledger :=
  ledger ++ [⟨space, 0, writeUnits bytes⟩]

def scale (factor : Nat) (ledger : Ledger) : Ledger :=
  ledger.map fun charge =>
    { charge with reads := charge.reads * factor, writes := charge.writes * factor }

def reads (ledger : Ledger) : Nat :=
  sumOf Charge.reads ledger

def writes (ledger : Ledger) : Nat :=
  sumOf Charge.writes ledger

def ofTable (ledger : Ledger) (table : String) : Ledger :=
  ledger.filter fun charge => charge.space.table == table

def ofSpace (ledger : Ledger) (space : Space) : Ledger :=
  ledger.filter fun charge => charge.space == space

def tables (ledger : Ledger) : List String :=
  (Dict.ofList (ledger.map fun charge => (charge.space.table, ()))).keys

def indexes (ledger : Ledger) : List String :=
  let names := ledger.filterMap fun charge => charge.space.index
  (Dict.ofList (names.map fun name => (name, ()))).keys

def units (ledger : Ledger) : CapacityUnits where
  read := if ledger.reads = 0 then none else some (Double.ofNat ledger.reads)
  write := if ledger.writes = 0 then none else some (Double.ofNat ledger.writes)
  total := some (Double.ofNat (ledger.reads + ledger.writes))

def consumedBy (ledger : Ledger) (table : String) (withIndexes : Bool) : ConsumedCapacity :=
  let charged := ledger.ofTable table
  let itemized := withIndexes && !charged.isEmpty
  { tableName := some table
    units := charged.units
    table := if itemized then some (charged.ofSpace ⟨table, none⟩).units else none
    indexes := if itemized then
        charged.indexes.map fun index => (index, (charged.ofSpace ⟨table, some index⟩).units)
      else [] }

def consumed (ledger : Ledger) (detail : Option CapacityDetail) (table : String) :
    Option ConsumedCapacity :=
  match detail with
  | some .total => some (ledger.consumedBy table false)
  | some .indexes => some (ledger.consumedBy table true)
  | some .none | none => none

def consumedAll (ledger : Ledger) (detail : Option CapacityDetail) : List ConsumedCapacity :=
  ledger.tables.filterMap (ledger.consumed detail)

end Ledger
end ItemStore
