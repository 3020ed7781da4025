import ItemStore.Proofs.Engine.Ownership

/-!
Rows of tables are well-formed: each holds an item that its table accepts under the key of the row.
Puts are checked before they are carried out and updates after, so that this holds of whatever an
update makes of an item, and of an item that it makes from nothing but a key.
-/

namespace ItemStore

/-- A row that holds an item which is valid, within the size limit, and under its own key, and whose
index keys can be formed. -/
def Row.WellFormed (table : Table) (row : Row) : Prop :=
  ∃ item, row.document.toItem? = some item ∧ table.rowKey item = .ok row.key ∧
    item.validate = .ok () ∧ table.checkIndexKeys item = .ok () ∧ row.document.size ≤ 400000

theorem Records.accepts {tables : Dict String Table} {store : Store}
    {items : String → RowKey → Option Item} (records : Records tables store items) {table : Table}
    (listed : tables.get? table.name = some table) {row : Row}
    (member : row ∈ store.rowsOf ⟨table.name, none⟩) :
    ∃ item, row.document = Document.ofItem item ∧ table.Accepts row.key item := by
  have found := Store.mem_rowsOf.mp member
  rw [records.base table listed] at found
  obtain ⟨item, stored, written⟩ := Option.map_eq_some_iff.mp found
  exact ⟨item, written.symm, records.accepted table listed row.key item stored⟩

/-- After any run of requests, whichever of them failed, every row of every table is well-formed. -/
theorem reachable_wellFormed {tables : Dict String Table} (named : Named tables) {store : Store}
    (reachable : Reachable tables store) (readable : store.Readable) {table : Table}
    (listed : tables.get? table.name = some table) :
    ∀ row ∈ store.rowsOf ⟨table.name, none⟩, row.WellFormed table := by
  intro row member
  obtain ⟨items, records⟩ := reachable.records named
  obtain ⟨item, written, accepted⟩ := records.accepts listed member
  have found := Store.mem_rowsOf.mp member
  rw [written] at found
  have read := readable.toItem?_ofItem found accepted.ordered
  refine ⟨item, ?_, accepted.keyed, accepted.valid, accepted.indexed, ?_⟩
  · rw [written, read]
  · rw [written]
    exact accepted.sized

/-- An update makes an item from its key and a value that a placeholder names, and a second one of
the key attribute fails. -/
theorem wellFormed_after_updates :
    let byTag : Index := ⟨"by-tag", "tag", none, .keysOnly⟩
    let notes : Table := ⟨"notes", "id", some "at", [byTag], none⟩
    let engine : Engine := ⟨[("notes", notes)], Config.default, [Hook.record], [], 0⟩
    let key : Item := [("at", .number "1.0"), ("id", .string "a")]
    let update (names : Dict String String) : Request := .updateItem ⟨"notes", key,
      some "SET #tag = :tag", none, ⟨names, [(":tag", .number "2.50")]⟩, none, none, none⟩
    let first := (engine.handle (update [("#tag", "tag")]) (Session.ofStore .empty)).2
    let second := engine.handle (update [("#tag", "at")]) first
    second.2.store.rows.length = 2 ∧ second.1.toOption.isNone = true ∧
      ∀ row ∈ second.2.store.rowsOf ⟨"notes", none⟩, row.WellFormed notes := by
  intro byTag notes engine key update first second
  have quiet : ∀ hook ∈ engine.hooks, hook.Quiet := by
    intro hook member
    rw [List.mem_singleton.mp member]
    exact fun _ _ _ => rfl
  have made : Reachable engine.tables first.store :=
    .request .empty rfl quiet ⟨by decide, by decide⟩
  have reachable : Reachable engine.tables second.2.store :=
    .request made rfl quiet ⟨by decide, by decide⟩
  have listed : engine.tables.get? notes.name = some notes := by decide
  refine ⟨by decide +kernel, by decide +kernel, ?_⟩
  exact reachable_wellFormed (named_of_entries (by decide)) reachable
    (Store.readable_of_all (by decide +kernel)) listed

end ItemStore
