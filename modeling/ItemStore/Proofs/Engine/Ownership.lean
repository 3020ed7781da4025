import ItemStore.Proofs.Engine.IndexConsistency

/-!
Every row is about an item: a row of a table is the item's document, and a row of an index holds
what the index keeps of an item of its table, up to equal values. Indexes may share a name here, so
that one row can take the place of another, but no row outlasts the item it is about.
-/

namespace ItemStore

inductive Owned (tables : Dict String Table) (items : String → RowKey → Option Item) :
    Space → RowKey → Document → Prop
  | item {table : Table} {key : RowKey} {item : Item}
      (listed : tables.get? table.name = some table)
      (found : items table.name key = some item) :
      Owned tables items ⟨table.name, none⟩ key (Document.ofItem item)
  | entry {table : Table} {index : Index} {base key : RowKey} {item row : Item}
      (listed : tables.get? table.name = some table) (member : index ∈ table.indexes)
      (found : items table.name base = some item)
      (formed : index.rowKey? table item = .ok (some key)) (ordered : row.Ordered)
      (equal : row.equal (index.project table item) = true) :
      Owned tables items ⟨table.name, some index.name⟩ key (Document.ofItem row)

/-- The rows are those of the given items, as far as there are rows. -/
structure Records (tables : Dict String Table) (rows : Store)
    (items : String → RowKey → Option Item) : Prop where
  base : ∀ table, tables.get? table.name = some table → ∀ key,
    rows.get? ⟨table.name, none⟩ key = (items table.name key).map Document.ofItem
  accepted : ∀ table, tables.get? table.name = some table → ∀ key item,
    items table.name key = some item → table.Accepts key item
  owned : ∀ space key document, rows.get? space key = some document →
    Owned tables items space key document

namespace Engine

variable {table : Table} {index : Index} {stored new : Option Item}

theorem of_oldIndexRow {row : RowKey × Item} (found : oldIndexRow table index stored = some row) :
    ∃ item, stored = some item ∧ index.rowKey? table item = .ok (some row.1) ∧
      row.2 = index.project table item := by
  obtain ⟨item, rfl, made⟩ := Option.bind_eq_some_iff.mp found
  split at made
  · rename_i formed
    cases made
    exact ⟨item, rfl, formed, rfl⟩
  · cases made

theorem oldIndexRow_of_rowKey? {item : Item} {key : RowKey}
    (formed : index.rowKey? table item = .ok (some key)) :
    oldIndexRow table index (some item) = some (key, index.project table item) := by
  rw [oldIndexRow, Option.bind_some, formed]

theorem put_of_mem_indexWrites {space : Space} {key : RowKey} {document : Document}
    (member : ⟨space, key, some document⟩ ∈ indexWrites table stored new index) :
    ∃ row, oldIndexRow table index new = some (key, row) ∧ document = Document.ofItem row := by
  obtain ⟨step, listed, written⟩ := List.mem_map.mp member
  cases step with
  | delete there item => simp [IndexStep.write] at written
  | put there item =>
      simp only [IndexStep.write, RowWrite.mk.injEq, Option.some.injEq] at written
      obtain ⟨_, rfl, rfl⟩ := written
      refine ⟨item, ?_, rfl⟩
      simp only [indexSteps, stepsBetween] at listed
      split at listed <;> rename_i latest
      · split at listed
        · split at listed
          · cases listed
          · cases List.mem_singleton.mp listed
            exact latest
        · simp only [List.mem_cons, IndexStep.put.injEq, reduceCtorEq, List.not_mem_nil, or_false,
            false_or] at listed
          obtain ⟨rfl, rfl⟩ := listed
          exact latest
      · cases List.mem_singleton.mp listed
      · cases List.mem_singleton.mp listed
        exact latest
      · cases listed

theorem row_kept_of_unwritten {key : RowKey} {old : Item}
    (before : oldIndexRow table index stored = some (key, old))
    (unwritten : ∀ write ∈ indexWrites table stored new index, write.key ≠ key) :
    ∃ row, oldIndexRow table index new = some (key, row) ∧ old.equal row = true := by
  have untouched : ∀ step ∈ stepsBetween (some (key, old)) (oldIndexRow table index new),
      (step.write ⟨table.name, some index.name⟩).key ≠ key := by
    intro step member
    refine unwritten _ (List.mem_map.mpr ⟨step, ?_, rfl⟩)
    rw [indexSteps, before]
    exact member
  rcases latest : oldIndexRow table index new with _ | ⟨newKey, row⟩
  · rw [latest] at untouched
    exact absurd rfl (untouched (.delete key old) List.mem_cons_self)
  · rw [latest] at untouched
    by_cases same : key = newKey
    · subst same
      cases equal : Item.equal old row with
      | true => exact ⟨row, rfl, equal⟩
      | false =>
          have put : IndexStep.put key row ∈ stepsBetween (some (key, old)) (some (key, row)) := by
            simp [stepsBetween, equal]
          exact absurd rfl (untouched _ put)
    · have delete : IndexStep.delete key old ∈
          stepsBetween (some (key, old)) (some (newKey, row)) := by
        simp [stepsBetween, same]
      exact absurd rfl (untouched _ delete)

section Replacement

variable {engine : Engine} {plan : WritePlan} {tables : Dict String Table} {rows : Store}
  {items : String → RowKey → Option Item}

/-- What a replacement writes is about the new item. -/
theorem owned_of_written (listed : tables.get? plan.table.name = some plan.table)
    (accepted : ∀ item, new = some item → plan.table.Accepts plan.key item)
    {space : Space} {key : RowKey} {document : Document}
    (member : ⟨space, key, some document⟩ ∈ (engine.replacement plan stored new).writes) :
    Owned tables (itemsAfter items plan new) space key document := by
  have latest : itemsAfter items plan new plan.table.name plan.key = new :=
    itemsAfter_of_same rfl rfl
  rcases List.mem_append.mp member with base | listedWrite
  · have address := of_mem_baseWrites base
    simp only at address
    obtain ⟨rfl, rfl⟩ := address
    have written : new.map Document.ofItem = some document := by
      unfold baseWrites at base
      split at base
      · cases base
      · simpa using (List.mem_singleton.mp base).symm
    obtain ⟨item, rfl, rfl⟩ := Option.map_eq_some_iff.mp written
    exact .item listed latest
  · obtain ⟨index, indexed, written⟩ := List.mem_flatMap.mp listedWrite
    have inIndex : space = ⟨plan.table.name, some index.name⟩ := space_of_indexWrites written
    obtain ⟨row, made, rfl⟩ := put_of_mem_indexWrites written
    obtain ⟨item, rfl, formed, rfl⟩ := of_oldIndexRow made
    have ordered := Index.ordered_project (accepted item rfl).ordered index plan.table
    have equal := (index.project plan.table item).equal_refl
    rw [inIndex]
    exact .entry listed indexed latest formed ordered equal

theorem replacement_records (records : Records tables rows items)
    (listed : tables.get? plan.table.name = some plan.table)
    (accepted : ∀ item, new = some item → plan.table.Accepts plan.key item) :
    Records tables
      (rows.after (engine.replacement plan (items plan.table.name plan.key) new).writes)
      (itemsAfter items plan new) := by
  have base : ∀ table, tables.get? table.name = some table → ∀ key,
      (rows.after (engine.replacement plan (items plan.table.name plan.key) new).writes).get?
        ⟨table.name, none⟩ key = (itemsAfter items plan new table.name key).map Document.ofItem :=
    fun table tableListed key => base_after_replacement (records.base table tableListed key)
  refine ⟨base, accepted_itemsAfter records.accepted listed accepted, ?_⟩
  intro space key document found
  have whole := found
  rw [Store.get?_after] at found
  cases last : RowWrite.last? (engine.replacement plan (items plan.table.name plan.key) new).writes
      space key with
  | some written =>
      rw [last, Option.getD_some] at found
      subst found
      exact owned_of_written listed accepted (RowWrite.mem_of_last?_eq_some last)
  | none =>
      rw [last, Option.getD_none] at found
      cases records.owned space key document found with
      | item tableListed before =>
          rw [base _ tableListed] at whole
          obtain ⟨item, after, same⟩ := Option.map_eq_some_iff.mp whole
          rw [← same]
          exact .item tableListed after
      | @entry table index owner _ item row tableListed member before formed ordered equal =>
          by_cases here : table.name = plan.table.name ∧ owner = plan.key
          · obtain ⟨sameName, rfl⟩ := here
            have sameTable : table = plan.table := by
              rw [sameName, listed] at tableListed
              exact (Option.some.inj tableListed).symm
            subst sameTable
            -- The item has changed, but what the index keeps of it has not.
            have unwritten : ∀ write ∈ indexWrites plan.table (some item) new index,
                write.key ≠ key := by
              intro write written
              rw [← before] at written
              refine RowWrite.key_ne_of_last?_eq_none last write ?_ (space_of_indexWrites written)
              exact List.mem_append_right _ (List.mem_flatMap.mpr ⟨index, member, written⟩)
            obtain ⟨latest, made, kept⟩ :=
              row_kept_of_unwritten (oldIndexRow_of_rowKey? formed) unwritten
            obtain ⟨newItem, rfl, newFormed, rfl⟩ := of_oldIndexRow made
            have now : itemsAfter items plan (some newItem) plan.table.name plan.key =
                some newItem := itemsAfter_of_same rfl rfl
            exact .entry listed member now newFormed ordered (Item.equal_trans equal kept)
          · have unchanged : itemsAfter items plan new table.name owner = some item := by
              rw [itemsAfter, if_neg here, before]
            exact .entry tableListed member unchanged formed ordered equal

end Replacement

end Engine

namespace Records

variable {tables : Dict String Table} {rows : Store} {items : String → RowKey → Option Item}

theorem item?_eq (records : Records tables rows items) {table : Table}
    (listed : tables.get? table.name = some table) {key : RowKey} {stored : Option Item}
    (read : rows.item? ⟨table.name, none⟩ key = some stored) : items table.name key = stored :=
  Store.eq_of_item?_eq (records.base table listed key)
    (fun item found => (records.accepted table listed key item found).ordered) read

theorem item?_of_readable (records : Records tables rows items) (readable : rows.Readable)
    {table : Table} (listed : tables.get? table.name = some table) (key : RowKey) :
    rows.item? ⟨table.name, none⟩ key = some (items table.name key) := by
  obtain ⟨stored, read⟩ :=
    Option.ne_none_iff_exists'.mp (readable.item?_ne_none ⟨table.name, none⟩ key)
  rw [read, records.item?_eq listed read]

theorem after_effect {engine : Engine} {plan : WritePlan} (records : Records tables rows items)
    (sound : plan.Sound tables) {effect : Engine.Effect}
    (told : engine.effect plan (items plan.table.name plan.key) = .ok effect) :
    effect.writes = [] ∨ ∃ new,
      effect = engine.replacement plan (items plan.table.name plan.key) new ∧
      Records tables (rows.after effect.writes) (itemsAfter items plan new) := by
  have before : ∀ item, items plan.table.name plan.key = some item →
      item.Ordered ∧ plan.table.rowKey item = .ok plan.key := by
    intro item found
    have accepted := records.accepted plan.table sound.listed plan.key item found
    exact ⟨accepted.ordered, accepted.keyed⟩
  rcases Engine.effect_cases sound before told with nothing | ⟨new, rfl, accepted⟩
  · exact Or.inl nothing
  · exact Or.inr ⟨new, rfl, Engine.replacement_records records sound.listed accepted⟩

end Records

/-- Every store that requests lead to holds rows about some items. -/
theorem Reachable.records {tables : Dict String Table} (named : Named tables) {store : Store}
    (reachable : Reachable tables store) : ∃ items, Records tables store items := by
  let Held (store : Store) := ∃ items, Records tables store items
  have start : Held .empty := ⟨fun _ _ => none, fun _ _ _ => rfl, nofun, nofun⟩
  refine @Reachable.invariant _ Held named start ?_ _ reachable
  rintro engine plan rows stored effect rfl sound ⟨items, records⟩ read told
  rw [← records.item?_eq sound.listed read] at told
  rcases records.after_effect sound told with nothing | ⟨new, _, after⟩
  · rw [nothing]
    exact ⟨items, records⟩
  · exact ⟨_, after⟩

end ItemStore
