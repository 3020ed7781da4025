import Mathlib.Data.List.AList
import ItemStore.Proofs.Store.MemoryReads

/-!
Sequences of steps in one transaction. Each step answers as it would on a plain map from addresses
to documents, a commit leaves what that map holds in the end, and a rollback what it held before.
-/

namespace ItemStore

inductive TransactionStep where
  | get (space : Space) (key : RowKey)
  | put (space : Space) (key : RowKey) (document : Document)
  | delete (space : Space) (key : RowKey)
  | query (space : Space) (query : RangeQuery)

inductive StepAnswer where
  | document (found : Option Document)
  | rows (found : List Row)
deriving DecidableEq

namespace MemoryTransaction

def step (transaction : MemoryTransaction) : TransactionStep → StepAnswer × MemoryTransaction
  | .get space key => (.document (transaction.get? space key), transaction)
  | .put space key document =>
      let (previous, after) := transaction.put space key document
      (.document previous, after)
  | .delete space key =>
      let (previous, after) := transaction.delete space key
      (.document previous, after)
  | .query space query => (.rows (transaction.query space query), transaction)

def steps (transaction : MemoryTransaction) : List TransactionStep → List StepAnswer × MemoryTransaction
  | [] => ([], transaction)
  | step :: rest =>
      let (answer, next) := transaction.step step
      let (answers, last) := next.steps rest
      (answer :: answers, last)

end MemoryTransaction

/-- Documents by address, in no particular order, without a log. -/
abbrev PlainRows := AList fun _ : Address => Document

namespace PlainRows

def get? (plain : PlainRows) (space : Space) (key : RowKey) : Option Document :=
  plain.lookup ⟨space, key⟩

def rowsOf (plain : PlainRows) (space : Space) : List Row :=
  plain.entries.filterMap fun entry =>
    if entry.1.space = space then some ⟨entry.1.key, entry.2⟩ else none

def query (plain : PlainRows) (space : Space) (query : RangeQuery) : List Row :=
  query.settled.naive (plain.rowsOf space)

def rowCount (plain : PlainRows) (space : Space) : Nat :=
  (plain.rowsOf space).length

def step (plain : PlainRows) : TransactionStep → StepAnswer × PlainRows
  | .get space key => (.document (plain.get? space key), plain)
  | .put space key document =>
      (.document (plain.get? space key), plain.insert ⟨space, key⟩ document)
  | .delete space key => (.document (plain.get? space key), plain.erase ⟨space, key⟩)
  | .query space query => (.rows (plain.query space query), plain)

def steps (plain : PlainRows) : List TransactionStep → List StepAnswer × PlainRows
  | [] => ([], plain)
  | step :: rest =>
      let (answer, next) := plain.step step
      let (answers, last) := next.steps rest
      (answer :: answers, last)

theorem get?_insert (plain : PlainRows) (space other : Space) (key otherKey : RowKey)
    (document : Document) : get? (plain.insert ⟨space, key⟩ document) other otherKey =
      if space = other ∧ key = otherKey then some document else plain.get? other otherKey := by
  split
  · rename_i same
    obtain ⟨rfl, rfl⟩ := same
    exact AList.lookup_insert plain
  · rename_i different
    exact AList.lookup_insert_ne fun same => different (by cases same; exact ⟨rfl, rfl⟩)

theorem get?_erase (plain : PlainRows) (space other : Space) (key otherKey : RowKey) :
    get? (plain.erase ⟨space, key⟩) other otherKey =
      if space = other ∧ key = otherKey then none else plain.get? other otherKey := by
  split
  · rename_i same
    obtain ⟨rfl, rfl⟩ := same
    exact AList.lookup_erase _ plain
  · rename_i different
    exact AList.lookup_erase_ne fun same => different (by cases same; exact ⟨rfl, rfl⟩)

theorem get?_eq_some_iff {plain : PlainRows} {space : Space} {key : RowKey} {document : Document} :
    plain.get? space key = some document ↔ ⟨⟨space, key⟩, document⟩ ∈ plain.entries :=
  AList.mem_lookup_iff

theorem mem_rowsOf {plain : PlainRows} {space : Space} {row : Row} :
    row ∈ plain.rowsOf space ↔ plain.get? space row.key = some row.document := by
  rw [rowsOf, List.mem_filterMap, get?_eq_some_iff]
  constructor
  · rintro ⟨⟨⟨there, key⟩, document⟩, listed, kept⟩
    split at kept
    · rename_i same
      cases kept
      cases same
      exact listed
    · cases kept
  · intro listed
    exact ⟨_, listed, if_pos rfl⟩

theorem rowsOf_nodup (plain : PlainRows) (space : Space) : (plain.rowsOf space).Nodup := by
  refine List.Pairwise.filterMap _ ?_ (List.nodupKeys_iff_pairwise.mp plain.nodupKeys)
  rintro ⟨⟨spaceA, keyA⟩, documentA⟩ ⟨⟨spaceB, keyB⟩, documentB⟩ different rowA keptA rowB keptB
  simp only [Option.ite_none_right_eq_some, Option.some.injEq] at keptA keptB
  obtain ⟨rfl, rfl⟩ := keptA
  obtain ⟨rfl, rfl⟩ := keptB
  rintro ⟨⟩
  exact different rfl

end PlainRows

namespace Memory

def plain (memory : Memory) : PlainRows where
  entries := memory.flat.rows.map fun entry => ⟨entry.1, entry.2⟩
  nodupKeys := by
    refine List.nodupKeys_iff_pairwise.mpr (List.pairwise_map.mpr (memory.flat.ascending.imp ?_))
    intro a b less same
    have same : a.1 = b.1 := same
    rw [same, Std.ReflOrd.compare_self] at less
    cases less

/-- Reads of the memory, of every kind and at every place, answer as those of the map do. -/
structure AnswersAs (memory : Memory) (plain : PlainRows) : Prop where
  get : ∀ space key, memory.get? space key = plain.get? space key
  query : ∀ space query, memory.query space query = plain.query space query
  count : ∀ space, memory.rowCount space = plain.rowCount space

theorem get?_plain (memory : Memory) (space : Space) (key : RowKey) :
    memory.get? space key = memory.plain.get? space key := by
  apply Option.ext
  intro document
  rw [← get?_flat, PlainRows.get?_eq_some_iff]
  constructor
  · intro found
    exact List.mem_map.mpr ⟨_, Dict.mem_of_get?_eq_some found, rfl⟩
  · intro listed
    obtain ⟨⟨address, held⟩, member, same⟩ := List.mem_map.mp listed
    cases same
    exact Dict.get?_eq_some_of_mem memory.flat.ascending member

variable {memory : Memory} {plain : PlainRows}

theorem listsRows_plain (same : ∀ space key, memory.get? space key = plain.get? space key)
    (space : Space) : ListsRows (memory.get? space) (plain.rowsOf space) :=
  ⟨plain.rowsOf_nodup space, fun row => by rw [PlainRows.mem_rowsOf, same]⟩

theorem answersAs_of_get? (same : ∀ space key, memory.get? space key = plain.get? space key) :
    memory.AnswersAs plain := by
  refine ⟨same, fun space query => ?_, fun space => ?_⟩
  · rw [query_eq_run]
    exact query.run_eq_naive (listsRows_plain same space) (memory.rowsOf_ascending space)
      fun row => memory.mem_rowsOf
  · rw [rowCount_eq]
    exact ((listsRows_plain same space).perm (memory.rowsOf_ascending space)
      fun row => memory.mem_rowsOf).length_eq.symm

end Memory

namespace MemoryTransaction

variable {transaction : MemoryTransaction} {plain : PlainRows}

/-- A step answers as on the map that the memory goes by, and leaves what the map has after it. What
a rollback restores does not change. -/
theorem step_answersAs (answers : transaction.memory.AnswersAs plain) (step : TransactionStep) :
    (transaction.step step).1 = (plain.step step).1 ∧
      (transaction.step step).2.memory.AnswersAs (plain.step step).2 ∧
      (transaction.step step).2.rollback.flat = transaction.rollback.flat := by
  cases step with
  | get space key => exact ⟨congrArg StepAnswer.document (answers.get space key), answers, rfl⟩
  | query space query => exact ⟨congrArg StepAnswer.rows (answers.query space query), answers, rfl⟩
  | put space key document =>
      have previous := (transaction.previous_put space key document).trans (answers.get space key)
      refine ⟨congrArg StepAnswer.document previous, Memory.answersAs_of_get? ?_,
        transaction.rollback_put space key document⟩
      intro other otherKey
      have expected := plain.get?_insert space other key otherKey document
      rw [← answers.get] at expected
      exact (transaction.get?_put space other key otherKey document).trans expected.symm
  | delete space key =>
      have previous := (transaction.previous_delete space key).trans (answers.get space key)
      refine ⟨congrArg StepAnswer.document previous, Memory.answersAs_of_get? ?_,
        transaction.rollback_delete space key⟩
      intro other otherKey
      have expected := plain.get?_erase space other key otherKey
      rw [← answers.get] at expected
      exact (transaction.get?_delete space other key otherKey).trans expected.symm

theorem steps_answerAs (steps : List TransactionStep) :
    ∀ {transaction : MemoryTransaction} {plain : PlainRows}, transaction.memory.AnswersAs plain →
      (transaction.steps steps).1 = (plain.steps steps).1 ∧
        (transaction.steps steps).2.memory.AnswersAs (plain.steps steps).2 ∧
        (transaction.steps steps).2.rollback.flat = transaction.rollback.flat := by
  induction steps with
  | nil => exact fun answers => ⟨rfl, answers, rfl⟩
  | cons step rest ih =>
      intro transaction plain answers
      obtain ⟨answer, next, restores⟩ := step_answersAs answers step
      obtain ⟨later, last, restored⟩ := ih next
      exact ⟨congrArg₂ List.cons answer later, last, restored.trans restores⟩

/-- Partitions that lose their last row go, whether the writes are kept or taken back. -/
theorem steps_tidy {memory : Memory} (tidy : memory.Tidy) (steps : List TransactionStep) :
    let ran := (MemoryTransaction.begin memory).steps steps
    ran.2.commit.Tidy ∧ ran.2.rollback.Tidy := by
  have kept : ∀ {transaction : MemoryTransaction}, transaction.memory.Tidy →
      (transaction.steps steps).2.memory.Tidy := by
    induction steps with
    | nil => exact id
    | cons step rest ih =>
        intro transaction tidy
        cases step with
        | get => exact ih tidy
        | query => exact ih tidy
        | put space key document => exact ih (tidy_put tidy space key document)
        | delete space key => exact ih (tidy_delete tidy space key)
  have last := @kept (MemoryTransaction.begin memory) tidy
  exact ⟨last, tidy_rollback last⟩

/-- In a transaction on any memory every step answers as on a plain map of the documents there, to
which the steps before it have been done. Once committed the memory answers as the map after all
steps, and once taken back, by a rollback or because the transaction was left, as before. -/
theorem steps_sequential (memory : Memory) (steps : List TransactionStep) :
    let ran := (MemoryTransaction.begin memory).steps steps
    let expected := memory.plain.steps steps
    ran.1 = expected.1 ∧ ran.2.commit.AnswersAs expected.2 ∧
      ran.2.rollback.AnswersAs memory.plain := by
  have start : (MemoryTransaction.begin memory).memory.AnswersAs memory.plain :=
    Memory.answersAs_of_get? memory.get?_plain
  obtain ⟨answers, last, restored⟩ := steps_answerAs steps start
  refine ⟨answers, last, Memory.answersAs_of_get? fun space key => ?_⟩
  rw [← Memory.get?_flat, restored, Memory.get?_flat]
  exact memory.get?_plain space key

end MemoryTransaction
end ItemStore
