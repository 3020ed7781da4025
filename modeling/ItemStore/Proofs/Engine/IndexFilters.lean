import ItemStore.Proofs.Engine.Actions
import ItemStore.Proofs.Expression.Spelling
import ItemStore.Proofs.Outcomes

/-!
A row of an index that is not written again, since its values stay equal, passes the filters that
the rewritten row would pass.
-/

namespace ItemStore
namespace Engine

/-- An index leaves a row as it is if it stays where it is and keeps equal values. -/
theorem maintainIndex_skips {engine : Engine} {table : Table} {index : Index}
    {stored new : Option Item} {key : RowKey} {before after : Item}
    (old : oldIndexRow table index stored = some (key, before))
    (next : newIndexRow table index new = .ok (some (key, after)))
    (same : before.equal after = true) (session : Session) :
    (engine.maintainIndex table stored new index).exec session = (.ok (), session) := by
  have replaced : (Action.key (newIndexRow table index new)).exec session =
      (.ok (some (key, after)), session) := by
    rw [next]
    rfl
  rw [maintainIndex, Action.exec_bind_ok replaced]
  simp only [old, same, if_true, Action.exec_pure]

end Engine

namespace Condition

/-- A condition answers alike on equal items with equal values. Hence a filter answers alike on the
row of an index that is left as it was written and on the row that would be written. -/
theorem evaluate_unspelled :
    (∀ (condition : Condition) (item other : Item) (bindings others : Bindings),
      item.Alike other → bindings.Alike others →
        GoAlike Eq (condition.evaluate bindings item) (condition.evaluate others other)) ∧
    ∀ (engine : Engine) (table : Table) (index : Index) (stored new : Option Item) (key : RowKey)
      (before after : Item), Engine.oldIndexRow table index stored = some (key, before) →
        Engine.newIndexRow table index new = .ok (some (key, after)) → before.equal after = true →
        (∀ session, (engine.maintainIndex table stored new index).exec session =
          (.ok (), session)) ∧
        ∀ kept : Item, kept.equal before = true → kept.equal after = true ∧
          ∀ (filter : Condition) (bindings : Bindings),
            GoAlike Eq (filter.evaluate bindings kept) (filter.evaluate bindings after) := by
  refine ⟨fun condition item other bindings others items given => alike_evaluate given items _, ?_⟩
  intro engine table index stored new key before after old next same
  refine ⟨engine.maintainIndex_skips old next same, fun kept carries => ?_⟩
  have equal := Item.equal_trans carries same
  exact ⟨equal, fun filter bindings =>
    alike_evaluate (Bindings.alike_refl bindings) (Item.alike_of_equal equal) filter⟩

namespace SpelledApart

/-! An index row whose number and set are written in another way by an update. -/

def notes : Table := ⟨"notes", "id", none, [⟨"by-tag", "tag", none, .all⟩], none⟩

def index : Index := ⟨"by-tag", "tag", none, .all⟩

def stored : Item :=
  [("id", .string "a"), ("marks", .list [.number "1.0", .numberSet ["2", "30"]]),
    ("tag", .string "x")]

def new : Item :=
  [("id", .string "a"), ("marks", .list [.number "1", .numberSet ["3e1", "2.0"]]),
    ("tag", .string "x")]

def given : Bindings := ⟨[("#m", "marks")], [(":high", .number "10"), (":low", .number "1")]⟩

def others : Bindings := ⟨[("#m", "marks")], [(":high", .number "1e1"), (":low", .number "0.1e1")]⟩

def filter : Condition :=
  .logical .and
    (.between (.path ⟨.placeholder "#m", [.index 0]⟩) (.value ":low") (.value ":high"))
    (.not (.contains ⟨.placeholder "#m", [.index 1]⟩ (.value ":low")))

theorem evaluate_unspelled_beside_index :
    stored.equal new = true ∧ stored.Alike new ∧ given.Alike others ∧
      filter.evaluate given stored = .ok true ∧
      GoAlike Eq (filter.evaluate given stored) (filter.evaluate others new) ∧
      Engine.oldIndexRow notes index (some stored) =
        some (⟨.string "x", [.string "a"]⟩, stored) ∧
      Engine.newIndexRow notes index (some new) =
        .ok (some (⟨.string "x", [.string "a"]⟩, new)) ∧
      ∀ (filter : Condition) (bindings : Bindings),
        GoAlike Eq (filter.evaluate bindings stored) (filter.evaluate bindings new) := by
  have same : stored.equal new = true := by decide +kernel
  have values : Item.equal given.values others.values = true := by decide +kernel
  have items := Item.alike_of_equal same
  have alike : given.Alike others := ⟨rfl, Item.alike_of_equal values⟩
  have old : Engine.oldIndexRow notes index (some stored) =
      some (⟨.string "x", [.string "a"]⟩, stored) := rfl
  have next : Engine.newIndexRow notes index (some new) =
      .ok (some (⟨.string "x", [.string "a"]⟩, new)) := rfl
  have holds : filter.evaluate given stored = .ok true := ok_of_toOption (by decide +kernel)
  have skipped := evaluate_unspelled.2 ⟨[], Config.default, [], [], 0⟩ notes index _ _ _ _ _
    old next same
  exact ⟨same, items, alike, holds, evaluate_unspelled.1 filter _ _ _ _ items alike, old, next,
    (skipped.2 stored (Item.equal_refl _)).2⟩

end SpelledApart

end Condition
end ItemStore
