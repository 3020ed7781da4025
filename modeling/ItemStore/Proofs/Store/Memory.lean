import ItemStore.Proofs.Store.Undo
import ItemStore.Proofs.Store.Writes
import ItemStore.Store.Memory

/-!
Maps in maps hold what one map from addresses holds. Writing to them, partitions and all, is writing
to that map, so that a transaction in memory goes step by step with one on the flat store.
-/

namespace ItemStore

namespace Partitions

def rows (partitions : Partitions) : List Row :=
  partitions.entries.flatMap fun entry => entry.2.entries.map (RangeQuery.toRow entry.1)

theorem mem_rows {partitions : Partitions} {row : Row} : row ∈ partitions.rows ↔
    ∃ partition, partitions.get? row.key.hash = some partition ∧
      partition.get? row.key.sort = some row.document := by
  obtain ⟨⟨hash, sort⟩, document⟩ := row
  simp only [rows, List.mem_flatMap, List.mem_map, SortedDict.get?_eq_some_iff]
  constructor
  · rintro ⟨⟨_, partition⟩, listed, ⟨_, _⟩, held, same⟩
    cases same
    exact ⟨partition, listed, held⟩
  · rintro ⟨partition, listed, held⟩
    exact ⟨_, listed, _, held, rfl⟩

/-- Partition by partition, and in each by the sort values, the rows come in the order of keys. -/
theorem rows_ascending (partitions : Partitions) :
    partitions.rows.Pairwise fun a b => compare a.key b.key = .lt := by
  refine List.pairwise_flatMap.mpr ⟨fun entry _ => ?_, partitions.ascending.imp ?_⟩
  · refine List.pairwise_map.mpr (entry.2.ascending.imp fun {a b} less => ?_)
    show (compare entry.1 entry.1).then (compare a.1 b.1) = .lt
    rw [Std.ReflOrd.compare_self]
    exact less
  · intro a b less x first y second
    obtain ⟨earlier, _, rfl⟩ := List.mem_map.mp first
    obtain ⟨later, _, rfl⟩ := List.mem_map.mp second
    show (compare a.1 b.1).then (compare earlier.1 later.1) = .lt
    rw [less]
    rfl

theorem getD_putBack (partitions : Partitions) (hash other : KeyValue) (partition : Partition) :
    ((partitions.putBack hash partition).get? other).getD .empty =
      if hash = other then partition else (partitions.get? other).getD .empty := by
  rw [putBack]
  split
  · rename_i none
    rw [SortedDict.get?_erase]
    split
    · exact (SortedDict.eq_empty none).symm
    · rfl
  · rw [SortedDict.get?_insert]
    split <;> rfl

end Partitions

theorem eq_of_mem_iff {first second : List Row}
    (ascending : first.Pairwise fun a b => compare a.key b.key = .lt)
    (alsoAscending : second.Pairwise fun a b => compare a.key b.key = .lt)
    (same : ∀ row, row ∈ first ↔ row ∈ second) : first = second := by
  have once : ∀ {rows : List Row},
      (rows.Pairwise fun a b => compare a.key b.key = .lt) → rows.Nodup := by
    refine fun sorted => sorted.imp ?_
    rintro row _ less rfl
    rw [Std.ReflOrd.compare_self] at less
    cases less
  have perm := (List.perm_ext_iff_of_nodup (once ascending) (once alsoAscending)).mpr same
  refine perm.eq_of_pairwise (fun a b _ _ less more => ?_) ascending alsoAscending
  have around := Std.TransCmp.lt_trans less more
  rw [Std.ReflOrd.compare_self] at around
  cases around

namespace Memory

variable (memory : Memory)

def rowsOf (space : Space) : List Row :=
  ((memory.spaces.get? space).getD .empty).rows

theorem rowsOf_ascending (space : Space) :
    (memory.rowsOf space).Pairwise fun a b => compare a.key b.key = .lt :=
  Partitions.rows_ascending _

theorem get?_eq (space : Space) (key : RowKey) : memory.get? space key =
    ((((memory.spaces.get? space).getD .empty).get? key.hash).getD .empty).get? key.sort := by
  cases found : memory.spaces.get? space with
  | none => simp [get?, found]
  | some partitions =>
      cases there : partitions.get? key.hash <;> simp [get?, found, there]

theorem mem_rowsOf {space : Space} {row : Row} :
    row ∈ memory.rowsOf space ↔ memory.get? space row.key = some row.document := by
  rw [rowsOf, Partitions.mem_rows, get?_eq]
  cases ((memory.spaces.get? space).getD .empty).get? row.key.hash <;> simp

theorem rowCount_eq (space : Space) : memory.rowCount space = (memory.rowsOf space).length := by
  have counted : ∀ entries : Dict KeyValue Partition,
      sumOf (fun entry => entry.2.entries.length) entries =
        (entries.flatMap fun entry => entry.2.entries.map (RangeQuery.toRow entry.1)).length := by
    intro entries
    induction entries with
    | nil => rfl
    | cons entry rest ih => rw [List.flatMap_cons, List.length_append, List.length_map, ← ih, sumOf]
  rw [rowCount, rowsOf]
  cases memory.spaces.get? space with
  | none => rfl
  | some partitions => exact counted partitions.entries

/-! Single writes. -/

theorem previous_putRow (space : Space) (key : RowKey) (document : Document) :
    (memory.putRow space key document).1 = memory.get? space key :=
  (memory.get?_eq space key).symm

theorem get?_putRow (space other : Space) (key otherKey : RowKey) (document : Document) :
    (memory.putRow space key document).2.get? other otherKey =
      if space = other ∧ key = otherKey then some document else memory.get? other otherKey := by
  obtain ⟨hash, sort⟩ := key
  obtain ⟨otherHash, otherSort⟩ := otherKey
  rw [get?_eq, get?_eq, putRow]
  by_cases sameSpace : space = other
  · subst sameSpace
    by_cases sameHash : hash = otherHash
    · subst sameHash
      simp [SortedDict.get?_insert]
    · simp [SortedDict.get?_insert, sameHash]
  · simp [SortedDict.get?_insert, sameSpace]

theorem previous_removeRow (space : Space) (key : RowKey) :
    (memory.removeRow space key).1 = memory.get? space key := by
  rw [get?_eq, removeRow]
  cases memory.spaces.get? space with
  | none => rfl
  | some partitions =>
      cases found : partitions.get? key.hash <;> simp [found]

theorem get?_removeRow (space other : Space) (key otherKey : RowKey) :
    (memory.removeRow space key).2.get? other otherKey =
      if space = other ∧ key = otherKey then none else memory.get? other otherKey := by
  obtain ⟨hash, sort⟩ := key
  obtain ⟨otherHash, otherSort⟩ := otherKey
  have absent (none : memory.get? space ⟨hash, sort⟩ = none) :
      memory.get? other ⟨otherHash, otherSort⟩ =
        if space = other ∧ RowKey.mk hash sort = ⟨otherHash, otherSort⟩ then .none
        else memory.get? other ⟨otherHash, otherSort⟩ := by
    split
    · rename_i same
      rw [← same.1, ← same.2, none]
    · rfl
  rw [removeRow]
  cases found : memory.spaces.get? space with
  | none => exact absent (by simp [get?_eq, found])
  | some partitions =>
      dsimp only
      cases there : partitions.get? hash with
      | none => exact absent (by simp [get?_eq, found, there])
      | some partition =>
          rw [get?_eq, get?_eq]
          by_cases sameSpace : space = other
          · subst sameSpace
            by_cases sameHash : hash = otherHash
            · subst sameHash
              simp [SortedDict.get?_insert, SortedDict.get?_erase, Partitions.getD_putBack, found,
                there]
            · simp [SortedDict.get?_insert, Partitions.getD_putBack, found, sameHash]
          · simp [SortedDict.get?_insert, sameSpace]

def Tidy (memory : Memory) : Prop :=
  ∀ space partitions, memory.spaces.get? space = some partitions →
    ∀ hash partition, partitions.get? hash = some partition → partition.isEmpty = false

section Tidy

variable {memory}

theorem Tidy.insert (tidy : memory.Tidy) (space : Space) {partitions : Partitions}
    (none_empty : ∀ hash partition, partitions.get? hash = some partition →
      partition.isEmpty = false) : Tidy ⟨memory.spaces.insert space partitions⟩ := by
  intro other found held
  rw [SortedDict.get?_insert] at held
  split at held
  · cases held
    exact none_empty
  · exact tidy other found held

theorem tidy_putRow (tidy : memory.Tidy) (space : Space) (key : RowKey) (document : Document) :
    (memory.putRow space key document).2.Tidy := by
  refine tidy.insert space fun hash partition held => ?_
  rw [SortedDict.get?_insert] at held
  split at held
  · cases held
    exact SortedDict.isEmpty_insert _ key.sort document
  · cases there : memory.spaces.get? space with
    | none =>
        rw [there] at held
        cases held
    | some partitions =>
        rw [there] at held
        exact tidy space partitions there hash partition held

theorem tidy_removeRow (tidy : memory.Tidy) (space : Space) (key : RowKey) :
    (memory.removeRow space key).2.Tidy := by
  rw [removeRow]
  split
  · exact tidy
  · rename_i partitions there
    split
    · exact tidy
    · rename_i partition _
      refine tidy.insert space fun hash kept held => ?_
      rw [Partitions.putBack] at held
      split at held
      · rw [SortedDict.get?_erase] at held
        split at held
        · cases held
        · exact tidy space partitions there hash kept held
      · rename_i left
        rw [SortedDict.get?_insert] at held
        split at held
        · cases held
          exact Bool.eq_false_iff.mpr left
        · exact tidy space partitions there hash kept held

theorem tidy_revert (tidy : memory.Tidy) (entry : UndoEntry) : (memory.revert entry).Tidy := by
  rw [revert]
  split
  · exact tidy_putRow tidy entry.space entry.key _
  · exact tidy_removeRow tidy entry.space entry.key

end Tidy

/-! The same rows in a flat store. -/

def flat : Store where
  rows := memory.spaces.entries.flatMap fun entry =>
    entry.2.rows.map fun row => (⟨entry.1, row.key⟩, row.document)
  ascending := by
    refine List.pairwise_flatMap.mpr ⟨fun entry _ => ?_, memory.spaces.ascending.imp ?_⟩
    · refine List.pairwise_map.mpr (entry.2.rows_ascending.imp fun {a b} less => ?_)
      show (compare entry.1 entry.1).then (compare a.key b.key) = .lt
      rw [Std.ReflOrd.compare_self]
      exact less
    · intro a b less x first y second
      obtain ⟨earlier, _, rfl⟩ := List.mem_map.mp first
      obtain ⟨later, _, rfl⟩ := List.mem_map.mp second
      show (compare a.1 b.1).then (compare earlier.key later.key) = .lt
      rw [less]
      rfl

theorem get?_flat (space : Space) (key : RowKey) :
    memory.flat.get? space key = memory.get? space key := by
  apply Option.ext
  intro document
  have held : memory.flat.get? space key = some document ↔
      (⟨space, key⟩, document) ∈ memory.flat.rows :=
    ⟨Dict.mem_of_get?_eq_some, Dict.get?_eq_some_of_mem memory.flat.ascending⟩
  have inSpace : ⟨key, document⟩ ∈ memory.rowsOf space ↔ memory.get? space key = some document :=
    memory.mem_rowsOf
  rw [held, ← inSpace, flat, List.mem_flatMap, rowsOf]
  constructor
  · rintro ⟨⟨_, partitions⟩, listed, there⟩
    obtain ⟨_, member, same⟩ := List.mem_map.mp there
    cases same
    rw [SortedDict.get?_eq_some_iff.mpr listed]
    exact member
  · intro member
    cases found : memory.spaces.get? space with
    | none =>
        rw [found] at member
        cases member
    | some partitions =>
        rw [found] at member
        exact ⟨_, SortedDict.get?_eq_some_iff.mp found, List.mem_map_of_mem member⟩

theorem flat_putRow (space : Space) (key : RowKey) (document : Document) :
    (memory.putRow space key document).2.flat = memory.flat.put space key document := by
  apply Store.ext_get?
  intro other otherKey
  have written := Store.get?_apply memory.flat ⟨space, key, some document⟩ other otherKey
  rw [get?_flat] at written
  rw [get?_flat, get?_putRow]
  exact written.symm

theorem flat_removeRow (space : Space) (key : RowKey) :
    (memory.removeRow space key).2.flat = memory.flat.delete space key := by
  apply Store.ext_get?
  intro other otherKey
  have written := Store.get?_apply memory.flat ⟨space, key, none⟩ other otherKey
  rw [get?_flat] at written
  rw [get?_flat, get?_removeRow]
  exact written.symm

theorem flat_revert (entry : UndoEntry) :
    (memory.revert entry).flat = entry.revert memory.flat := by
  obtain ⟨space, key, previous⟩ := entry
  cases previous with
  | none => exact memory.flat_removeRow space key
  | some document => exact memory.flat_putRow space key document

theorem rowsOf_flat (space : Space) : memory.flat.rowsOf space = memory.rowsOf space := by
  refine eq_of_mem_iff (memory.flat.rowsOf_ascending space) (memory.rowsOf_ascending space) ?_
  intro row
  rw [Store.mem_rowsOf, get?_flat]
  exact memory.mem_rowsOf.symm

theorem rowCount_flat (space : Space) : memory.flat.rowCount space = memory.rowCount space := by
  rw [Store.rowCount, rowsOf_flat, rowCount_eq]

end Memory

namespace MemoryTransaction

variable (transaction : MemoryTransaction)

def flat : Transaction := ⟨transaction.memory.flat, transaction.undo⟩

theorem get?_flat (space : Space) (key : RowKey) :
    transaction.flat.get? space key = transaction.get? space key :=
  transaction.memory.get?_flat space key

theorem flat_put (space : Space) (key : RowKey) (document : Document) :
    (transaction.put space key document).map id flat =
      transaction.flat.put space key document := by
  have previous := transaction.memory.previous_putRow space key document
  have same := transaction.memory.get?_flat space key
  simp only [put, write, flat, Prod.map, id, Transaction.put, Transaction.get?, previous, same,
    Memory.flat_putRow]

theorem flat_delete (space : Space) (key : RowKey) :
    (transaction.delete space key).map id flat = transaction.flat.delete space key := by
  have previous := transaction.memory.previous_removeRow space key
  rw [delete, Transaction.delete, get?_flat]
  cases found : transaction.get? space key with
  | none => rfl
  | some document =>
      rw [show transaction.memory.get? space key = some document from found] at previous
      simp [write, flat, previous, Memory.flat_removeRow]

theorem flat_rollback : transaction.rollback.flat = transaction.flat.rollback := by
  have folded : ∀ (undo : List UndoEntry) (memory : Memory),
      (undo.foldl Memory.revert memory).flat = undo.foldl UndoEntry.revert memory.flat := by
    intro undo
    induction undo with
    | nil => exact fun _ => rfl
    | cons entry rest ih =>
        intro memory
        rw [List.foldl_cons, List.foldl_cons, ih, Memory.flat_revert]
  exact folded transaction.undo transaction.memory

theorem flat_commit : transaction.commit.flat = transaction.flat.commit := rfl

/-! What a write returns, leaves, and logs. -/

theorem previous_put (space : Space) (key : RowKey) (document : Document) :
    (transaction.put space key document).1 = transaction.get? space key :=
  transaction.memory.previous_putRow space key document

theorem previous_delete (space : Space) (key : RowKey) :
    (transaction.delete space key).1 = transaction.get? space key := by
  rw [delete]
  split
  · exact transaction.memory.previous_removeRow space key
  · rename_i absent
    exact (Option.not_isSome_iff_eq_none.mp absent).symm

theorem get?_put (space other : Space) (key otherKey : RowKey) (document : Document) :
    (transaction.put space key document).2.get? other otherKey =
      if space = other ∧ key = otherKey then some document
      else transaction.get? other otherKey :=
  transaction.memory.get?_putRow space other key otherKey document

theorem get?_delete (space other : Space) (key otherKey : RowKey) :
    (transaction.delete space key).2.get? other otherKey =
      if space = other ∧ key = otherKey then none else transaction.get? other otherKey := by
  rw [delete]
  split
  · exact transaction.memory.get?_removeRow space other key otherKey
  · rename_i absent
    split
    · rename_i same
      rw [← same.1, ← same.2]
      exact Option.not_isSome_iff_eq_none.mp absent
    · rfl

theorem rollback_put (space : Space) (key : RowKey) (document : Document) :
    (transaction.put space key document).2.rollback.flat = transaction.rollback.flat := by
  have written := congrArg Prod.snd (transaction.flat_put space key document)
  rw [flat_rollback, flat_rollback, ← transaction.flat.rollback_put space key document]
  exact congrArg Transaction.rollback written

theorem rollback_delete (space : Space) (key : RowKey) :
    (transaction.delete space key).2.rollback.flat = transaction.rollback.flat := by
  have written := congrArg Prod.snd (transaction.flat_delete space key)
  rw [flat_rollback, flat_rollback, ← transaction.flat.rollback_delete space key]
  exact congrArg Transaction.rollback written

section Tidy

variable {transaction}

theorem tidy_put (tidy : transaction.memory.Tidy) (space : Space) (key : RowKey)
    (document : Document) : (transaction.put space key document).2.memory.Tidy :=
  Memory.tidy_putRow tidy space key document

theorem tidy_delete (tidy : transaction.memory.Tidy) (space : Space) (key : RowKey) :
    (transaction.delete space key).2.memory.Tidy := by
  rw [delete]
  split
  · exact Memory.tidy_removeRow tidy space key
  · exact tidy

theorem tidy_rollback (tidy : transaction.memory.Tidy) : transaction.rollback.Tidy :=
  List.foldlRecOn _ _ tidy fun _ kept entry _ => Memory.tidy_revert kept entry

end Tidy

end MemoryTransaction
end ItemStore
