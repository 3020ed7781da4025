import ItemStore.Capacity
import ItemStore.Store.Transaction

/-!
A store in memory: maps in maps, from spaces to partitions to the rows of a partition in the order
of their sort values. A partition that loses its last row goes with it, a space stays. Transactions
write in place and log what they replaced.
-/

namespace ItemStore

abbrev Partition := SortedDict (List KeyValue) Document

abbrev Partitions := SortedDict KeyValue Partition

def Partitions.putBack (partitions : Partitions) (hash : KeyValue) (partition : Partition) :
    Partitions :=
  if partition.isEmpty then partitions.erase hash else partitions.insert hash partition

structure Memory where
  spaces : SortedDict Space Partitions
deriving DecidableEq

namespace RangeQuery

def upTo {α : Type} (limit : Option Nat) (values : List α) : List α :=
  match limit with
  | none => values
  | some limit => values.take limit

def toRow (hash : KeyValue) (entry : List KeyValue × Document) : Row :=
  ⟨⟨hash, entry.1⟩, entry.2⟩

def startIn (after : Option RowKey) (hash : KeyValue) : Option (List KeyValue) :=
  (after.filter fun key => key.hash == hash).map RowKey.sort

def rowBound (after : Option (List KeyValue)) : Bound (List KeyValue) :=
  after.elim .unbounded .excluded

def partitionBound (after : Option RowKey) : Bound KeyValue :=
  after.elim .unbounded fun key => .included key.hash

def collectPartition (hash : KeyValue) (partition : Partition) (condition : Option SortCondition)
    (forward : Bool) (after : Option (List KeyValue)) (limit : Option Nat) : List Row :=
  let found :=
    if forward then
      ((partition.range (start after condition) .unbounded).takeWhile fun entry =>
        !beyond SortCondition.isAbove condition entry.1).filter fun entry =>
          sortMatches condition entry.1
    else
      (((partition.range .unbounded (rowBound after)).reverse.dropWhile fun entry =>
        beyond SortCondition.isAbove condition entry.1).takeWhile fun entry =>
          !beyond SortCondition.isBelow condition entry.1).filter fun entry =>
            sortMatches condition entry.1
  (upTo limit found).map (toRow hash)

def entriesAfter (forward : Bool) (after : Option (List KeyValue)) (partition : Partition) :
    List (List KeyValue × Document) :=
  if forward then partition.range (rowBound after) .unbounded
  else (partition.range .unbounded (rowBound after)).reverse

def collectEach (forward : Bool) (after : Option RowKey) (limit : Option Nat) :
    List Row → List (KeyValue × Partition) → List Row
  | found, [] => found
  | found, (hash, partition) :: rest =>
      if limit.any fun count => count ≤ found.length then found
      else
        let entries := entriesAfter forward (startIn after hash) partition
        let remaining := limit.map fun count => count - found.length
        collectEach forward after limit
          (found ++ (upTo remaining entries).map (toRow hash)) rest

def collectAll (partitions : Partitions) (forward : Bool) (after : Option RowKey)
    (limit : Option Nat) : List Row :=
  let inTurn :=
    if forward then partitions.range (partitionBound after) .unbounded
    else (partitions.range .unbounded (partitionBound after)).reverse
  collectEach forward after limit [] inTurn

end RangeQuery

namespace Memory

def empty : Memory := ⟨.empty⟩

def get? (memory : Memory) (space : Space) (key : RowKey) : Option Document := do
  let partitions ← memory.spaces.get? space
  let partition ← partitions.get? key.hash
  partition.get? key.sort

def putRow (memory : Memory) (space : Space) (key : RowKey) (document : Document) :
    Option Document × Memory :=
  let partitions := (memory.spaces.get? space).getD .empty
  let partition := (partitions.get? key.hash).getD .empty
  let written := partitions.insert key.hash (partition.insert key.sort document)
  (partition.get? key.sort, ⟨memory.spaces.insert space written⟩)

def removeRow (memory : Memory) (space : Space) (key : RowKey) : Option Document × Memory :=
  match memory.spaces.get? space with
  | none => (none, memory)
  | some partitions =>
      match partitions.get? key.hash with
      | none => (none, memory)
      | some partition =>
          let left := partitions.putBack key.hash (partition.erase key.sort)
          (partition.get? key.sort, ⟨memory.spaces.insert space left⟩)

def query (memory : Memory) (space : Space) (query : RangeQuery) : List Row :=
  match memory.spaces.get? space with
  | none => []
  | some partitions =>
      match query.hash with
      | none => RangeQuery.collectAll partitions query.forward query.after query.limit
      | some hash =>
          match partitions.get? hash with
          | none => []
          | some partition =>
              RangeQuery.collectPartition hash partition query.condition query.forward
                (RangeQuery.startIn query.after hash) query.limit

def rowCount (memory : Memory) (space : Space) : Nat :=
  match memory.spaces.get? space with
  | none => 0
  | some partitions => sumOf (fun entry => entry.2.entries.length) partitions.entries

def revert (memory : Memory) (entry : UndoEntry) : Memory :=
  match entry.previous with
  | some document => (memory.putRow entry.space entry.key document).2
  | none => (memory.removeRow entry.space entry.key).2

end Memory

/-- The memory as it is now, and the writes since the transaction began, last first. -/
structure MemoryTransaction where
  memory : Memory
  undo : List UndoEntry

namespace MemoryTransaction

def begin (memory : Memory) : MemoryTransaction := ⟨memory, []⟩

def write (transaction : MemoryTransaction) (space : Space) (key : RowKey)
    (document : Option Document) : Option Document × MemoryTransaction :=
  let (previous, memory) :=
    match document with
    | some document => transaction.memory.putRow space key document
    | none => transaction.memory.removeRow space key
  (previous, ⟨memory, ⟨space, key, previous⟩ :: transaction.undo⟩)

def get? (transaction : MemoryTransaction) (space : Space) (key : RowKey) : Option Document :=
  transaction.memory.get? space key

def put (transaction : MemoryTransaction) (space : Space) (key : RowKey) (document : Document) :
    Option Document × MemoryTransaction :=
  transaction.write space key (some document)

def delete (transaction : MemoryTransaction) (space : Space) (key : RowKey) :
    Option Document × MemoryTransaction :=
  if (transaction.get? space key).isSome then transaction.write space key none
  else (none, transaction)

def query (transaction : MemoryTransaction) (space : Space) (query : RangeQuery) : List Row :=
  transaction.memory.query space query

def commit (transaction : MemoryTransaction) : Memory :=
  transaction.memory

/-- The memory without the writes of the transaction. That is what a transaction leaves that is
dropped, too. -/
def rollback (transaction : MemoryTransaction) : Memory :=
  transaction.undo.foldl Memory.revert transaction.memory

end MemoryTransaction
end ItemStore
