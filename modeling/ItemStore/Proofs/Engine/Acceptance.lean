import ItemStore.Proofs.Engine.Runs

/-!
What plans write has been accepted by the table: it is valid, within the size limit, and under its
own key, and all of its index keys can be formed.
-/

namespace ItemStore

structure Table.Accepts (table : Table) (key : RowKey) (item : Item) : Prop where
  ordered : item.Ordered
  keyed : table.rowKey item = .ok key
  valid : item.validate = .ok ()
  sized : item.size ≤ maxItemSize
  indexed : table.checkIndexKeys item = .ok ()

namespace Engine

open Action

variable {engine : Engine} {plan : WritePlan} {stored : Option Item}

theorem current_keyed (prepared : plan.Prepared)
    (keyed : ∀ item, stored = some item → plan.table.rowKey item = .ok plan.key) :
    plan.table.rowKey ((engine.visible plan.table stored).getD plan.keyItem) = .ok plan.key := by
  cases seen : engine.visible plan.table stored with
  | none => exact prepared.key
  | some item => exact keyed item (Option.filter_eq_some_iff.mp seen).1

theorem current_ordered (key : plan.keyItem.Ordered)
    (ordered : ∀ item, stored = some item → item.Ordered) :
    ((engine.visible plan.table stored).getD plan.keyItem).Ordered := by
  cases seen : engine.visible plan.table stored with
  | none => exact key
  | some item => exact ordered item (Option.filter_eq_some_iff.mp seen).1

theorem updatedItem_accepted {tables : Dict String Table} (sound : plan.Sound tables)
    {update : Update} (action : plan.action = .update update)
    (before : ∀ item, stored = some item →
      item.Ordered ∧ plan.table.rowKey item = .ok plan.key)
    {item : Item} (sized : item.size ≤ maxItemSize)
    (updated : (updatedItem plan update (engine.visible plan.table stored)).result = .ok item) :
    plan.table.Accepts plan.key item := by
  obtain ⟨applied, valid, indexed⟩ := updatedItem_ok updated
  have targets := sound.prepared.update update action
  refine ⟨?_, ?_, valid, sized, indexed⟩
  · exact Update.apply_ordered (current_ordered sound.key fun item same => (before item same).1)
      sound.values applied
  · rw [← current_keyed sound.prepared fun item same => (before item same).2]
    refine Table.rowKey_congr fun name isKey => ?_
    have listed := Table.mem_keyNames.mpr isKey
    exact Update.get?_apply_of_untargeted (Update.untargeted_of_validate targets listed) applied

theorem effect_cases {tables : Dict String Table} (sound : plan.Sound tables)
    (before : ∀ item, stored = some item → item.Ordered ∧ plan.table.rowKey item = .ok plan.key)
    {effect : Effect} (told : engine.effect plan stored = .ok effect) :
    effect.writes = [] ∨
      ∃ new, effect = engine.replacement plan stored new ∧
        ∀ item, new = some item → plan.table.Accepts plan.key item := by
  obtain ⟨held, _, told⟩ := bind_ok told
  cases held with
  | false =>
      cases told
      exact Or.inl rfl
  | true =>
      simp only [if_true] at told
      cases action : plan.action with
      | check =>
          rw [action] at told
          cases told
          exact Or.inl rfl
      | put item =>
          rw [action] at told
          cases told
          obtain ⟨keyed, valid, sized, indexed⟩ := sound.prepared.put item action
          refine Or.inr ⟨some item, rfl, ?_⟩
          rintro _ ⟨rfl⟩
          exact ⟨sound.item item action, keyed, valid, sized, indexed⟩
      | update update =>
          rw [action] at told
          obtain ⟨item, updated, told⟩ := bind_ok told
          split at told
          · rename_i sized
            cases told
            refine Or.inr ⟨some item, rfl, ?_⟩
            rintro _ ⟨rfl⟩
            exact updatedItem_accepted sound action before sized updated
          · cases told
      | delete =>
          rw [action] at told
          cases told
          exact Or.inr ⟨none, rfl, nofun⟩

end Engine
end ItemStore
