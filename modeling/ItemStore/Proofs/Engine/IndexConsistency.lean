import ItemStore.Proofs.Engine.Acceptance
import ItemStore.Proofs.Value.Equality
import ItemStore.Proofs.Value.RoundTrip

/-!
Indexes stay in step with their tables. The invariant is told of the items that were stored rather
than of what can be read back, and an index may differ from what its items project to by equal
values, since rows whose values stay equal are not written again.
-/

namespace ItemStore

def rowAt (row : Option (RowKey × Item)) (key : RowKey) : Option Item :=
  match row with
  | some (there, item) => if there = key then some item else none
  | none => none

def Index.projectedAt (index : Index) (table : Table) (items : RowKey → Option Item)
    (key : RowKey) : Option Item :=
  (index.owner? key).bind fun base => rowAt (Engine.oldIndexRow table index (items base)) key

theorem Index.projectedAt_of_rowKey? {index : Index} {table : Table}
    {items : RowKey → Option Item} {key base : RowKey} {item : Item}
    (owner : index.owner? key = some base) (found : items base = some item)
    (formed : index.rowKey? table item = .ok (some key)) :
    index.projectedAt table items key = some (index.project table item) := by
  simp [projectedAt, owner, found, Engine.oldIndexRow, formed, rowAt]

theorem Index.of_projectedAt {index : Index} {table : Table} {items : RowKey → Option Item}
    {key : RowKey} {row : Item} (projected : index.projectedAt table items key = some row) :
    ∃ base item, items base = some item ∧ index.rowKey? table item = .ok (some key) := by
  obtain ⟨base, _, there⟩ := Option.bind_eq_some_iff.mp projected
  cases stored : items base with
  | none => simp [stored, Engine.oldIndexRow, rowAt] at there
  | some item =>
      refine ⟨base, item, stored, ?_⟩
      rw [stored] at there
      simp only [Engine.oldIndexRow, Option.bind_some] at there
      split at there
      · rename_i formed
        simp only [rowAt] at there
        split at there
        · rename_i same
          rw [formed, same]
        · cases there
      · cases there

def Stands : Option Document → Option Item → Prop
  | none, none => True
  | some document, some item =>
      ∃ row : Item, document = Document.ofItem row ∧ row.Ordered ∧ row.equal item = true
  | _, _ => False

/-- The rows of all tables and indexes are those of the given items. -/
structure Mirrors (tables : Dict String Table) (rows : Store)
    (items : String → RowKey → Option Item) : Prop where
  base : ∀ table, tables.get? table.name = some table → ∀ key,
    rows.get? ⟨table.name, none⟩ key = (items table.name key).map Document.ofItem
  accepted : ∀ table, tables.get? table.name = some table → ∀ key item,
    items table.name key = some item → table.Accepts key item
  index : ∀ table, tables.get? table.name = some table → ∀ index ∈ table.indexes, ∀ key,
    Stands (rows.get? ⟨table.name, some index.name⟩ key)
      (index.projectedAt table (items table.name) key)

def itemsAfter (items : String → RowKey → Option Item) (plan : WritePlan) (new : Option Item)
    (name : String) (key : RowKey) : Option Item :=
  if name = plan.table.name ∧ key = plan.key then new else items name key

theorem itemsAfter_of_same {items : String → RowKey → Option Item} {plan : WritePlan}
    {new : Option Item} {name : String} {key : RowKey} (sameName : name = plan.table.name)
    (sameKey : key = plan.key) : itemsAfter items plan new name key = new :=
  if_pos ⟨sameName, sameKey⟩

theorem Store.eq_of_item?_eq {rows : Store} {space : Space} {key : RowKey}
    {stored item : Option Item} (row : rows.get? space key = item.map Document.ofItem)
    (ordered : ∀ found, item = some found → found.Ordered)
    (read : rows.item? space key = some stored) : item = stored := by
  rw [Store.item?, row] at read
  cases item with
  | none => simpa using read
  | some item =>
      obtain ⟨found, decoded, rfl⟩ := Option.map_eq_some_iff.mp read
      rw [Document.eq_of_toItem?_ofItem (ordered item rfl) decoded]

theorem Mirrors.item?_eq {tables : Dict String Table} {rows : Store}
    {items : String → RowKey → Option Item} (mirrors : Mirrors tables rows items) {table : Table}
    (listed : tables.get? table.name = some table) {key : RowKey} {stored : Option Item}
    (read : rows.item? ⟨table.name, none⟩ key = some stored) : items table.name key = stored :=
  Store.eq_of_item?_eq (mirrors.base table listed key)
    (fun item found => (mirrors.accepted table listed key item found).ordered) read

/-- Names by which the rows of indexes can be told apart. -/
def DistinctIndexes (tables : Dict String Table) : Prop :=
  ∀ table, tables.get? table.name = some table → (table.indexes.map Index.name).Nodup

theorem distinctIndexes_of_entries {tables : Dict String Table}
    (distinct : ∀ entry ∈ tables, (entry.2.indexes.map Index.name).Nodup) :
    DistinctIndexes tables :=
  fun _ found => distinct _ (Dict.mem_of_get?_eq_some found)

namespace Engine

variable {table : Table} {index : Index} {stored new : Option Item}

theorem space_of_indexWrites {write : RowWrite}
    (member : write ∈ indexWrites table stored new index) :
    write.space = ⟨table.name, some index.name⟩ := by
  obtain ⟨step, _, rfl⟩ := List.mem_map.mp member
  cases step <;> rfl

theorem of_mem_baseWrites {plan : WritePlan} {write : RowWrite}
    (member : write ∈ baseWrites plan stored new) :
    write.space = plan.space ∧ write.key = plan.key := by
  unfold baseWrites at member
  split at member
  · simp at member
  · rw [List.mem_singleton.mp member]
    exact ⟨rfl, rfl⟩

theorem space_of_replacement {engine : Engine} {plan : WritePlan} {write : RowWrite}
    (member : write ∈ (engine.replacement plan stored new).writes) :
    write.space = plan.space ∧ write.key = plan.key ∨
      ∃ index ∈ plan.table.indexes, write ∈ indexWrites plan.table stored new index := by
  rcases List.mem_append.mp member with base | index
  · exact Or.inl (of_mem_baseWrites base)
  · exact Or.inr (List.mem_flatMap.mp index)

theorem last?_replacement {engine : Engine} {plan : WritePlan}
    (distinct : (plan.table.indexes.map Index.name).Nodup) (member : index ∈ plan.table.indexes)
    (key : RowKey) :
    RowWrite.last? (engine.replacement plan stored new).writes
        ⟨plan.table.name, some index.name⟩ key =
      RowWrite.last? (indexWrites plan.table stored new index)
        ⟨plan.table.name, some index.name⟩ key := by
  have base : RowWrite.last? (baseWrites plan stored new) ⟨plan.table.name, some index.name⟩ key =
      none := by
    refine RowWrite.last?_eq_none fun write listed same => ?_
    rw [(of_mem_baseWrites listed).1] at same
    cases same
  simp only [replacement, RowWrite.last?_append, base, Option.or_none]
  generalize plan.table.indexes = indexes at distinct member
  induction indexes with
  | nil => simp at member
  | cons first rest ih =>
      obtain ⟨fresh, distinctRest⟩ := List.nodup_cons.mp distinct
      rw [List.flatMap_cons, RowWrite.last?_append]
      rcases List.mem_cons.mp member with rfl | later
      · have others : RowWrite.last? (rest.flatMap (indexWrites plan.table stored new))
            ⟨plan.table.name, some index.name⟩ key = none := by
          refine RowWrite.last?_eq_none fun write listed same => ?_
          obtain ⟨other, there, written⟩ := List.mem_flatMap.mp listed
          rw [space_of_indexWrites written] at same
          have names : other.name = index.name := by simpa using same
          exact absurd (List.mem_map.mpr ⟨other, there, names⟩) fresh
        rw [others, Option.none_or]
      · have here : RowWrite.last? (indexWrites plan.table stored new first)
            ⟨plan.table.name, some index.name⟩ key = none := by
          refine RowWrite.last?_eq_none fun write listed same => ?_
          rw [space_of_indexWrites listed] at same
          have names : first.name = index.name := by simpa using same
          exact absurd (List.mem_map.mpr ⟨index, later, names.symm⟩) fresh
        rw [here, Option.or_none, ih distinctRest later]

end Engine

theorem rowAt_self (key : RowKey) (item : Item) : rowAt (some (key, item)) key = some item :=
  if_pos rfl

theorem rowAt_of_ne {there key : RowKey} (other : there ≠ key) (item : Item) :
    rowAt (some (there, item)) key = none :=
  if_neg other

theorem stands_ofItem {item : Item} (ordered : item.Ordered) :
    Stands (some (Document.ofItem item)) (some item) :=
  ⟨item, rfl, ordered, item.equal_refl⟩

theorem Stands.of_equal {document : Option Document} {item other : Item}
    (stands : Stands document (some item)) (equal : item.equal other = true) :
    Stands document (some other) := by
  cases document with
  | none => exact stands.elim
  | some document =>
      obtain ⟨row, written, ordered, same⟩ := stands
      exact ⟨row, written, ordered, Item.equal_trans same equal⟩

namespace Engine

variable {table : Table} {index : Index} {stored new : Option Item}

theorem stands_put {space : Space} {key there : RowKey} {item : Item} {before : Option Document}
    (ordered : item.Ordered) (elsewhere : there ≠ key → Stands before none) :
    Stands ((RowWrite.last? [(IndexStep.put there item).write space] space key).getD before)
      (rowAt (some (there, item)) key) := by
  by_cases here : there = key
  · subst here
    simp only [IndexStep.write, RowWrite.last?, and_self, if_true, Option.none_or, Option.getD_some,
      rowAt_self]
    exact stands_ofItem ordered
  · simp only [IndexStep.write, RowWrite.last?, here, and_false, if_false, Option.or_none,
      Option.getD_none, rowAt_of_ne here]
    exact elsewhere here

theorem stands_delete {space : Space} {key there : RowKey} {item : Item} {before : Option Document}
    (elsewhere : there ≠ key → Stands before none) :
    Stands ((RowWrite.last? [(IndexStep.delete there item).write space] space key).getD before)
      none := by
  by_cases here : there = key
  · subst here
    simp only [IndexStep.write, RowWrite.last?, and_self, if_true, Option.none_or, Option.getD_some]
    exact trivial
  · simp only [IndexStep.write, RowWrite.last?, here, and_false, if_false, Option.or_none,
      Option.getD_none]
    exact elsewhere here

theorem stands_stepsBetween {space : Space} {old latest : Option (RowKey × Item)} {key : RowKey}
    {before : Option Document} (stands : Stands before (rowAt old key))
    (ordered : ∀ row, latest = some row → row.2.Ordered) :
    Stands ((RowWrite.last? ((stepsBetween old latest).map (IndexStep.write space)) space
      key).getD before) (rowAt latest key) := by
  rcases old with _ | ⟨oldKey, oldItem⟩
  · rcases latest with _ | ⟨newKey, newItem⟩
    · exact stands
    · exact stands_put (ordered _ rfl) fun _ => stands
  · have elsewhere : oldKey ≠ key → Stands before none := by
      intro other
      rw [rowAt_of_ne other] at stands
      exact stands
    rcases latest with _ | ⟨newKey, newItem⟩
    · exact stands_delete elsewhere
    · by_cases sameKey : oldKey = newKey
      · subst sameKey
        by_cases sameItem : Item.equal oldItem newItem = true
        · simp only [stepsBetween, sameItem, if_true, List.map_nil, RowWrite.last?,
            Option.getD_none]
          by_cases here : oldKey = key
          · subst here
            rw [rowAt_self] at stands ⊢
            exact stands.of_equal sameItem
          · rw [rowAt_of_ne here]
            exact elsewhere here
        · simp only [stepsBetween, sameItem, if_true, Bool.false_eq_true, if_false]
          exact stands_put (ordered _ rfl) elsewhere
      · have removed : Stands ((RowWrite.last? [(IndexStep.delete oldKey oldItem).write space]
            space key).getD before) none := stands_delete elsewhere
        have split : ((stepsBetween (some (oldKey, oldItem)) (some (newKey, newItem))).map
            (IndexStep.write space)) = [(IndexStep.delete oldKey oldItem).write space] ++
              [(IndexStep.put newKey newItem).write space] := by
          simp [stepsBetween, sameKey]
        rw [split, RowWrite.last?_append, Option.getD_or]
        exact stands_put (ordered _ rfl) fun _ => removed

theorem oldIndexRow_owner {base : RowKey}
    (keyed : ∀ item, stored = some item → table.rowKey item = .ok base)
    {row : RowKey × Item} (found : oldIndexRow table index stored = some row) :
    index.owner? row.1 = some base := by
  obtain ⟨item, rfl, made⟩ := Option.bind_eq_some_iff.mp found
  split at made
  · rename_i formed
    cases made
    exact Index.owner?_of_rowKey? formed (keyed item rfl)
  · cases made

theorem oldIndexRow_ordered (ordered : ∀ item, stored = some item → item.Ordered)
    {row : RowKey × Item} (found : oldIndexRow table index stored = some row) :
    row.2.Ordered := by
  obtain ⟨item, rfl, made⟩ := Option.bind_eq_some_iff.mp found
  split at made
  · cases made
    exact Index.ordered_project (ordered item rfl) index table
  · cases made

theorem owner_of_indexWrites {base : RowKey} {write : RowWrite}
    (storedKeyed : ∀ item, stored = some item → table.rowKey item = .ok base)
    (newKeyed : ∀ item, new = some item → table.rowKey item = .ok base)
    (member : write ∈ indexWrites table stored new index) : index.owner? write.key = some base := by
  have owners : ∀ row, oldIndexRow table index stored = some row ∨
      oldIndexRow table index new = some row → index.owner? row.1 = some base := by
    rintro row (found | found)
    · exact oldIndexRow_owner storedKeyed found
    · exact oldIndexRow_owner newKeyed found
  rw [indexWrites, indexSteps] at member
  generalize oldIndexRow table index stored = old at owners member
  generalize oldIndexRow table index new = latest at owners member
  rcases old with _ | ⟨oldKey, oldItem⟩
  · rcases latest with _ | ⟨newKey, newItem⟩
    · simp [stepsBetween] at member
    · rw [List.mem_singleton.mp member]
      exact owners _ (Or.inr rfl)
  · rcases latest with _ | ⟨newKey, newItem⟩
    · rw [List.mem_singleton.mp member]
      exact owners _ (Or.inl rfl)
    · obtain ⟨step, listed, rfl⟩ := List.mem_map.mp member
      have steps : step = .delete oldKey oldItem ∨ step = .put newKey newItem := by
        simp only [stepsBetween] at listed
        split at listed
        · split at listed
          · simp at listed
          · exact Or.inr (List.mem_singleton.mp listed)
        · simpa using listed
      rcases steps with rfl | rfl
      · exact owners _ (Or.inl rfl)
      · exact owners _ (Or.inr rfl)

section Replacement

variable {engine : Engine} {plan : WritePlan} {tables : Dict String Table} {rows : Store}
  {items : String → RowKey → Option Item}

theorem projectedAt_itemsAfter_of_ne {key : RowKey}
    (other : index.owner? key ≠ some plan.key) :
    index.projectedAt table (itemsAfter items plan new plan.table.name) key =
      index.projectedAt table (items plan.table.name) key := by
  cases owner : index.owner? key with
  | none => simp [Index.projectedAt, owner]
  | some base =>
      have elsewhere : base ≠ plan.key := fun same => other (by rw [owner, same])
      simp [Index.projectedAt, owner, itemsAfter, elsewhere]

theorem base_after_replacement {key : RowKey}
    (before : rows.get? ⟨table.name, none⟩ key =
      (items table.name key).map Document.ofItem) :
    (rows.after (engine.replacement plan (items plan.table.name plan.key) new).writes).get?
        ⟨table.name, none⟩ key =
      (itemsAfter items plan new table.name key).map Document.ofItem := by
  have indexes : RowWrite.last? (plan.table.indexes.flatMap
      (indexWrites plan.table (items plan.table.name plan.key) new)) ⟨table.name, none⟩ key =
        none := by
    refine RowWrite.last?_eq_none fun write member same => ?_
    obtain ⟨index, _, written⟩ := List.mem_flatMap.mp member
    rw [space_of_indexWrites written] at same
    simp at same
  rw [Store.get?_after, replacement, RowWrite.last?_append, indexes, Option.none_or, before,
    itemsAfter]
  by_cases here : table.name = plan.table.name ∧ key = plan.key
  · obtain ⟨sameName, rfl⟩ := here
    rw [if_pos ⟨sameName, rfl⟩, sameName]
    cases stored : items plan.table.name plan.key with
    | some item => simp [baseWrites, RowWrite.last?, WritePlan.space]
    | none => cases new <;> simp [baseWrites, RowWrite.last?, WritePlan.space]
  · rw [if_neg here]
    have elsewhere : RowWrite.last? (baseWrites plan (items plan.table.name plan.key) new)
        ⟨table.name, none⟩ key = none := by
      refine RowWrite.last?_eq_none fun write member same sameKey => here ?_
      obtain ⟨space, at_⟩ := of_mem_baseWrites member
      rw [space] at same
      exact ⟨(congrArg Space.table same).symm, sameKey ▸ at_⟩
    rw [elsewhere]
    rfl

theorem get?_replacement_elsewhere (other : table.name ≠ plan.table.name) (key : RowKey) :
    (rows.after (engine.replacement plan stored new).writes).get?
        ⟨table.name, some index.name⟩ key =
      rows.get? ⟨table.name, some index.name⟩ key := by
  refine Store.get?_after_elsewhere rows fun write written same _ => ?_
  have inTable : write.space.table = plan.table.name := by
    rcases space_of_replacement written with ⟨space, _⟩ | ⟨other, _, written⟩
    · rw [space]
      rfl
    · rw [space_of_indexWrites written]
  rw [same] at inTable
  exact other inTable

/-- The rows of an index whose key names the item that is replaced become those of the new item, and
all others stay. -/
theorem index_after_replacement (distinct : (plan.table.indexes.map Index.name).Nodup)
    (member : index ∈ plan.table.indexes)
    (storedAccepted : ∀ item, items plan.table.name plan.key = some item →
      plan.table.Accepts plan.key item)
    (accepted : ∀ item, new = some item → plan.table.Accepts plan.key item) {key : RowKey}
    (before : Stands (rows.get? ⟨plan.table.name, some index.name⟩ key)
      (index.projectedAt plan.table (items plan.table.name) key)) :
    Stands
      ((rows.after (engine.replacement plan (items plan.table.name plan.key) new).writes).get?
        ⟨plan.table.name, some index.name⟩ key)
      (index.projectedAt plan.table (itemsAfter items plan new plan.table.name) key) := by
  rw [Store.get?_after, last?_replacement distinct member]
  by_cases owned : index.owner? key = some plan.key
  · have project : ∀ items : RowKey → Option Item, index.projectedAt plan.table items key =
        rowAt (oldIndexRow plan.table index (items plan.key)) key := by
      intro items
      rw [Index.projectedAt, owned, Option.bind_some]
    have latest : itemsAfter items plan new plan.table.name plan.key = new :=
      itemsAfter_of_same rfl rfl
    rw [project] at before ⊢
    rw [latest]
    refine stands_stepsBetween before fun row found => ?_
    exact oldIndexRow_ordered (fun item same => (accepted item same).ordered) found
  · have elsewhere : RowWrite.last?
        (indexWrites plan.table (items plan.table.name plan.key) new index)
        ⟨plan.table.name, some index.name⟩ key = none := by
      refine RowWrite.last?_eq_none fun write written _ sameKey => owned ?_
      rw [← sameKey]
      exact owner_of_indexWrites (fun item same => (storedAccepted item same).keyed)
        (fun item same => (accepted item same).keyed) written
    rw [elsewhere, projectedAt_itemsAfter_of_ne owned]
    exact before

theorem accepted_itemsAfter
    (before : ∀ table, tables.get? table.name = some table → ∀ key item,
      items table.name key = some item → table.Accepts key item)
    (listed : tables.get? plan.table.name = some plan.table)
    (accepted : ∀ item, new = some item → plan.table.Accepts plan.key item) :
    ∀ table, tables.get? table.name = some table → ∀ key item,
      itemsAfter items plan new table.name key = some item → table.Accepts key item := by
  intro table tableListed key item found
  rw [itemsAfter] at found
  split at found
  · rename_i here
    obtain ⟨sameName, rfl⟩ := here
    rw [sameName, listed] at tableListed
    rw [← Option.some.inj tableListed]
    exact accepted item found
  · exact before table tableListed key item found

theorem replacement_mirrors (mirrors : Mirrors tables rows items)
    (distinct : DistinctIndexes tables) (listed : tables.get? plan.table.name = some plan.table)
    (accepted : ∀ item, new = some item → plan.table.Accepts plan.key item) :
    Mirrors tables
      (rows.after (engine.replacement plan (items plan.table.name plan.key) new).writes)
      (itemsAfter items plan new) := by
  have sameTable : ∀ table, tables.get? table.name = some table →
      table.name = plan.table.name → table = plan.table := by
    intro table tableListed sameName
    rw [sameName, listed] at tableListed
    exact (Option.some.inj tableListed).symm
  refine ⟨fun table tableListed key => base_after_replacement (mirrors.base table tableListed key),
    accepted_itemsAfter mirrors.accepted listed accepted, ?_⟩
  · intro table tableListed index member key
    have before := mirrors.index table tableListed index member key
    by_cases sameName : table.name = plan.table.name
    · obtain rfl := sameTable table tableListed sameName
      exact index_after_replacement (distinct plan.table listed) member
        (mirrors.accepted plan.table listed plan.key) accepted before
    · have sameItems : itemsAfter items plan new table.name = items table.name := by
        funext key
        exact if_neg fun here => sameName here.1
      rw [get?_replacement_elsewhere sameName, sameItems]
      exact before

theorem effect_mirrors (mirrors : Mirrors tables rows items) (distinct : DistinctIndexes tables)
    (sound : plan.Sound tables) {stored : Option Item}
    (read : rows.item? plan.space plan.key = some stored) {effect : Effect}
    (told : engine.effect plan stored = .ok effect) :
    ∃ items, Mirrors tables (rows.after effect.writes) items := by
  have storedIs := mirrors.item?_eq sound.listed read
  have before : ∀ item, stored = some item →
      item.Ordered ∧ plan.table.rowKey item = .ok plan.key := by
    intro item same
    have accepted := mirrors.accepted plan.table sound.listed plan.key item (storedIs.trans same)
    exact ⟨accepted.ordered, accepted.keyed⟩
  rcases effect_cases sound before told with nothing | ⟨new, rfl, accepted⟩
  · rw [nothing]
    exact ⟨items, mirrors⟩
  · rw [← storedIs]
    exact ⟨_, replacement_mirrors mirrors distinct sound.listed accepted⟩

end Replacement

end Engine

/-- Every store that requests lead to holds the rows of some items, and of their index entries. -/
theorem Reachable.mirrors {tables : Dict String Table} (named : Named tables)
    (distinct : DistinctIndexes tables) {store : Store} (reachable : Reachable tables store) :
    ∃ items, Mirrors tables store items := by
  let Held (store : Store) := ∃ items, Mirrors tables store items
  have start : Held .empty := by
    refine ⟨fun _ _ => none, fun _ _ _ => rfl, nofun, ?_⟩
    intro table _ index _ key
    have nothing : index.projectedAt table (fun _ => none) key = none := by
      rw [Index.projectedAt]
      cases index.owner? key <;> rfl
    rw [nothing]
    exact trivial
  refine @Reachable.invariant _ Held named start ?_ _ reachable
  rintro engine plan rows stored effect rfl sound ⟨items, mirrors⟩ read told
  exact Engine.effect_mirrors mirrors distinct sound read told

/-- The rows of an index are those of the items that have an index key: each is stored under that
key and holds the item's projection, up to equal values, and no two items share a row. -/
structure Index.InStep (index : Index) (table : Table) (store : Store) : Prop where
  listed : ∀ base item key, store.item? ⟨table.name, none⟩ base = some (some item) →
    index.rowKey? table item = .ok (some key) →
    ∃ row : Item, store.item? ⟨table.name, some index.name⟩ key = some (some row) ∧
      row.equal (index.project table item) = true
  owned : ∀ key document, store.get? ⟨table.name, some index.name⟩ key = some document →
    ∃ base item, store.item? ⟨table.name, none⟩ base = some (some item) ∧
      index.rowKey? table item = .ok (some key)
  unshared : ∀ base other item otherItem key,
    store.item? ⟨table.name, none⟩ base = some (some item) →
    store.item? ⟨table.name, none⟩ other = some (some otherItem) →
    index.rowKey? table item = .ok (some key) →
    index.rowKey? table otherItem = .ok (some key) → base = other

def Store.Readable (store : Store) : Prop :=
  ∀ space key document, store.get? space key = some document → document.toItem? ≠ none

theorem Store.readable_of_all {store : Store}
    (all : ∀ entry ∈ store.rows, entry.2.toItem?.isSome = true) : store.Readable := by
  intro space key document found unreadable
  have read := all _ (Dict.mem_of_get?_eq_some found)
  rw [unreadable] at read
  cases read

theorem Store.Readable.toItem?_ofItem {store : Store} (readable : store.Readable) {space : Space}
    {key : RowKey} {item : Item}
    (found : store.get? space key = some (Document.ofItem item)) (ordered : item.Ordered) :
    (Document.ofItem item).toItem? = some item := by
  cases read : (Document.ofItem item).toItem? with
  | none => exact absurd read (readable space key _ found)
  | some other => rw [Document.eq_of_toItem?_ofItem ordered read]

theorem Store.Readable.item?_ne_none {store : Store} (readable : store.Readable) (space : Space)
    (key : RowKey) : store.item? space key ≠ none := by
  intro unreadable
  rw [Store.item?] at unreadable
  split at unreadable
  · cases unreadable
  · rename_i document found
    exact readable _ _ _ found (Option.map_eq_none_iff.mp unreadable)

theorem Mirrors.item?_of_readable {tables : Dict String Table} {store : Store}
    {items : String → RowKey → Option Item} (mirrors : Mirrors tables store items)
    (readable : store.Readable) {table : Table} (listed : tables.get? table.name = some table)
    (key : RowKey) : store.item? ⟨table.name, none⟩ key = some (items table.name key) := by
  obtain ⟨stored, read⟩ :=
    Option.ne_none_iff_exists'.mp (readable.item?_ne_none ⟨table.name, none⟩ key)
  rw [read, mirrors.item?_eq listed read]

theorem Mirrors.inStep {tables : Dict String Table} {store : Store}
    {items : String → RowKey → Option Item} (mirrors : Mirrors tables store items)
    (readable : store.Readable) {table : Table} (listed : tables.get? table.name = some table)
    {index : Index} (member : index ∈ table.indexes) : index.InStep table store := by
  have owner : ∀ {base item key}, items table.name base = some item →
      index.rowKey? table item = .ok (some key) → index.owner? key = some base :=
    fun found formed => Index.owner?_of_rowKey? formed
      (mirrors.accepted table listed _ _ found).keyed
  refine ⟨?_, ?_, ?_⟩
  · intro base item key read formed
    have found := mirrors.item?_eq listed read
    have projected := Index.projectedAt_of_rowKey? (owner found formed) found formed
    have stands := mirrors.index table listed index member key
    rw [projected] at stands
    cases there : store.get? ⟨table.name, some index.name⟩ key with
    | none =>
        rw [there] at stands
        exact stands.elim
    | some document =>
        rw [there] at stands
        obtain ⟨row, rfl, ordered, equal⟩ := stands
        refine ⟨row, ?_, equal⟩
        rw [Store.item?, there]
        simp only [readable.toItem?_ofItem there ordered, Option.map_some]
  · intro key document found
    have stands := mirrors.index table listed index member key
    rw [found] at stands
    cases projected : index.projectedAt table (items table.name) key with
    | none =>
        rw [projected] at stands
        exact stands.elim
    | some row =>
        obtain ⟨base, item, stored, formed⟩ := Index.of_projectedAt projected
        refine ⟨base, item, ?_, formed⟩
        have document := mirrors.base table listed base
        rw [stored] at document
        have ordered := (mirrors.accepted table listed base item stored).ordered
        rw [Store.item?, document]
        simp only [Option.map_some, readable.toItem?_ofItem document ordered]
  · intro base other item otherItem key read otherRead formed otherFormed
    have first := owner (mirrors.item?_eq listed read) formed
    have second := owner (mirrors.item?_eq listed otherRead) otherFormed
    rw [first] at second
    exact Option.some.inj second

/-- After every request of every run each index of each table is in step with its table. -/
theorem reachable_inStep {tables : Dict String Table} (named : Named tables)
    (distinct : DistinctIndexes tables) {store : Store} (reachable : Reachable tables store)
    (readable : store.Readable) {table : Table} (listed : tables.get? table.name = some table)
    {index : Index} (member : index ∈ table.indexes) : index.InStep table store := by
  obtain ⟨items, mirrors⟩ := reachable.mirrors named distinct
  exact mirrors.inStep readable listed member

theorem inStep_after_put :
    let byTag : Index := ⟨"by-tag", "tag", none, .keysOnly⟩
    let notes : Table := ⟨"notes", "id", none, [byTag], none⟩
    let engine : Engine := ⟨[("notes", notes)], Config.default, [Hook.record], [], 0⟩
    let request : Request := .putItem ⟨"notes",
      [("id", .string "a"), ("tag", .number "1.0"), ("text", .string "t")], none, .none, none, none,
      none⟩
    let store := (engine.handle request (Session.ofStore .empty)).2.store
    store.rows.length = 2 ∧ byTag.InStep notes store := by
  refine ⟨by decide +kernel, ?_⟩
  refine reachable_inStep (named_of_entries (by decide)) (distinctIndexes_of_entries (by decide))
    (.request .empty rfl ?_ ?_) (Store.readable_of_all ?_) rfl List.mem_cons_self
  · intro hook member
    rw [List.mem_singleton.mp member]
    exact fun _ _ _ => rfl
  · exact ⟨by decide, by decide⟩
  · decide +kernel

end ItemStore
