import ItemStore.Proofs.Engine.Refinement
import ItemStore.Proofs.Value.RoundTrip

/-!
What can be written and not be read back. Nothing that is checked before a write limits how deep an
item nests, while the decoder goes only so deep. Every other document is read, of tables and of
indexes, and then the store is no reason for a request to fail.
-/

namespace ItemStore

namespace AttributeValue

/-! Equal values nest equally deep. -/

mutual
theorem depth_eq_of_equal : ∀ {a b : AttributeValue}, equal a b = true → a.depth = b.depth
  | .string _, b, same | .number _, b, same | .binary _, b, same | .stringSet _, b, same
  | .numberSet _, b, same | .binarySet _, b, same | .boolean _, b, same | .null _, b, same => by
      cases b <;> first | rfl | exact Bool.noConfusion same
  | .list _, b, same => by
      cases b <;> simp only [equal, Bool.false_eq_true] at same
      rw [depth, depth, elementsDepth_eq_of_equal same]
  | .map _, b, same => by
      cases b <;> simp only [equal, Bool.false_eq_true] at same
      rw [depth, depth, entriesDepth_eq_of_equal same]

theorem elementsDepth_eq_of_equal : ∀ {as bs : List AttributeValue},
    equalElements as bs = true → elementsDepth as = elementsDepth bs
  | [], [], _ => rfl
  | a :: as, b :: bs, same => by
      simp only [equalElements, Bool.and_eq_true] at same
      rw [elementsDepth, elementsDepth, depth_eq_of_equal same.1,
        elementsDepth_eq_of_equal same.2]

theorem entriesDepth_eq_of_equal : ∀ {as bs : List (String × AttributeValue)},
    equalEntries as bs = true → entriesDepth as = entriesDepth bs
  | [], [], _ => rfl
  | (_, a) :: as, (_, b) :: bs, same => by
      simp only [equalEntries, Bool.and_eq_true] at same
      rw [entriesDepth, entriesDepth, depth_eq_of_equal same.2.1,
        entriesDepth_eq_of_equal same.2.2]
end

theorem entriesDepth_filter_le (keep : String × AttributeValue → Bool)
    (entries : List (String × AttributeValue)) :
    entriesDepth (entries.filter keep) ≤ entriesDepth entries := by
  induction entries with
  | nil => exact Nat.le_refl _
  | cons entry rest ih =>
      obtain ⟨name, value⟩ := entry
      rw [List.filter_cons]
      split
      · simp only [entriesDepth]
        omega
      · simp only [entriesDepth]
        omega

end AttributeValue

theorem Item.depth_eq_of_equal {a b : Item} (same : a.equal b = true) : a.depth = b.depth :=
  congrArg (· + 1) (AttributeValue.entriesDepth_eq_of_equal same)

theorem Index.depth_project_le (index : Index) (table : Table) (item : Item) :
    (index.project table item).depth ≤ item.depth :=
  Nat.add_le_add_right (AttributeValue.entriesDepth_filter_le _ item) 1

/-- No item of a table nests deeper than a document can be read. -/
def Store.Shallow (tables : Dict String Table) (store : Store) : Prop :=
  ∀ table, tables.get? table.name = some table → ∀ key (item : Item), item.Ordered →
    store.get? ⟨table.name, none⟩ key = some (Document.ofItem item) →
    item.depth ≤ Decoder.maxNesting

theorem Document.toItem?_ofItem_ne_none {item : Item} (ordered : item.Ordered) :
    (Document.ofItem item).toItem? ≠ none ↔ item.depth ≤ Decoder.maxNesting := by
  rw [Document.toItem?_ofItem ordered]
  split <;> simp [*]

namespace Records

variable {tables : Dict String Table} {store : Store} {items : String → RowKey → Option Item}

theorem readable_of_items (records : Records tables store items)
    (shallow : ∀ table, tables.get? table.name = some table → ∀ key item,
      items table.name key = some item → item.depth ≤ Decoder.maxNesting) : store.Readable := by
  intro space key document found
  cases records.owned space key document found with
  | item listed stored =>
      have ordered := (records.accepted _ listed _ _ stored).ordered
      exact (Document.toItem?_ofItem_ne_none ordered).mpr (shallow _ listed _ _ stored)
  | @entry table index base _ item row listed member stored formed ordered equal =>
      refine (Document.toItem?_ofItem_ne_none ordered).mpr ?_
      calc row.depth = (index.project table item).depth := Item.depth_eq_of_equal equal
        _ ≤ item.depth := index.depth_project_le table item
        _ ≤ Decoder.maxNesting := shallow table listed base item stored

theorem readable_iff (records : Records tables store items) :
    store.Readable ↔ store.Shallow tables := by
  constructor
  · intro readable table _ key item ordered found
    exact (Document.toItem?_ofItem_ne_none ordered).mp (readable _ _ _ found)
  · intro shallow
    refine records.readable_of_items fun table listed key item stored => ?_
    have ordered := (records.accepted table listed key item stored).ordered
    refine shallow table listed key item ordered ?_
    rw [records.base table listed key, stored]
    rfl

/-- An item that nests too deep is stored, and what is stored is not read. -/
theorem item?_of_deep (records : Records tables store items) {table : Table}
    (listed : tables.get? table.name = some table) {key : RowKey} {item : Item}
    (stored : items table.name key = some item) (deep : Decoder.maxNesting < item.depth) :
    store.item? ⟨table.name, none⟩ key = none := by
  have ordered := (records.accepted table listed key item stored).ordered
  have unread : (Document.ofItem item).toItem? = none := by
    rw [Document.toItem?_ofItem ordered, if_neg (by omega)]
  rw [Store.item?, records.base table listed key, stored]
  simp [unread]

end Records

/-- Whether requests read and write the store without a failure that is not their own, as long as
no call is refused and no hook fails. -/
def Store.Serves (tables : Dict String Table) (store : Store) : Prop :=
  ∀ (engine : Engine) (request : Request) (session : Session), engine.tables = tables →
    (∀ hook ∈ engine.hooks, hook.Quiet) → ¬engine.Fragile → request.Ordered →
    session.store = store →
    ∀ failure, (engine.handle request session).1 = .error failure →
      failure.code ≠ .internalServerError

/-- After any run of requests every document of every table and index can be read back if and only
if no item nests too deep, and then no request fails for what is stored. -/
theorem reachable_readable_iff {tables : Dict String Table} (named : Named tables) {store : Store}
    (reachable : Reachable tables store) :
    (store.Readable ↔ store.Shallow tables) ∧ (store.Shallow tables → store.Serves tables) := by
  obtain ⟨items, records⟩ := reachable.records named
  refine ⟨records.readable_iff, ?_⟩
  rintro shallow engine request session rfl quiet steady ordered committed failure failed
  have readable := records.readable_iff.mpr shallow
  have leads := Engine.leads_answer quiet steady named
    (fun plan sound => Engine.Ready.of_records records readable sound) readable ordered session
    committed
  have ran : ((engine.answer request).exec session).1 = .error failure := failed
  split at leads <;> rename_i outcome
  · rw [outcome] at ran
    cases ran
  · rw [outcome] at ran
    cases ran
    exact leads

theorem serves_after_put :
    let notes : Table := ⟨"notes", "id", none, [], none⟩
    let engine : Engine := ⟨[("notes", notes)], Config.default, [], [], 0⟩
    let request : Request := .putItem ⟨"notes",
      [("id", .string "a"), ("parts", .list [.list [.map [("x", .number "1.0")]]])], none, .none,
      none, none, none⟩
    let store := (engine.handle request (Session.ofStore .empty)).2.store
    store.rows.length = 1 ∧ store.Readable ∧ store.Serves engine.tables := by
  intro notes engine request store
  have reachable : Reachable engine.tables store :=
    .request .empty rfl (nofun) ⟨by decide, by decide⟩
  have read : store.Readable := Store.readable_of_all (by decide +kernel)
  obtain ⟨shallow, serves⟩ := reachable_readable_iff (named_of_entries (by decide)) reachable
  exact ⟨by decide +kernel, read, serves (shallow.mp read)⟩

/-! What a write stores it has stored, however deep it nests. -/

namespace Engine

open Action

section Stored

variable {engine : Engine} {map : PlainMap} {session : Session} {plan : WritePlan}
  {old new : Option Item} (quiet : ∀ hook ∈ engine.hooks, hook.Quiet) (steady : ¬engine.Fragile)
  (shown : engine.HidesNothing) (named : Named engine.tables) (readable : session.store.Readable)
  (records : Records engine.tables session.store map)
  (applied : map.outcome plan = .ok (.applied old new))

include quiet steady shown named readable records applied

theorem putItem_applied {request : PutItemRequest} (ordered : (Request.putItem request).Ordered)
    (planned : engine.planOfPut request = .ok plan) :
    ∃ response after, (engine.putItem request).exec session = (.ok response, after) ∧
      Records engine.tables after.store (itemsAfter map plan new) := by
  obtain ⟨answer, rows⟩ := putItem_answers quiet steady shown named readable records ordered
  rw [planned, PlainMap.afterPlanned, PlainMap.after_of_applied applied] at rows
  have images : map.images plan = .ok (old, new) := by
    rw [PlainMap.images, applied]
    rfl
  rw [planned] at answer
  change _ = (map.images plan >>= _) at answer
  rw [images] at answer
  obtain ⟨response, answered, _⟩ := map_ok answer
  exact ⟨response, _, Prod.ext answered rfl, rows⟩

theorem updateItem_applied {request : UpdateItemRequest}
    (ordered : (Request.updateItem request).Ordered)
    (planned : engine.planOfUpdate request = .ok plan) (silent : request.returnValues = none) :
    ∃ response after, (engine.updateItem request).exec session = (.ok response, after) ∧
      Records engine.tables after.store (itemsAfter map plan new) := by
  obtain ⟨answer, rows⟩ := updateItem_answers quiet steady shown named readable records ordered
  rw [planned, PlainMap.afterPlanned, PlainMap.after_of_applied applied] at rows
  have images : map.images plan = .ok (old, new) := by
    rw [PlainMap.images, applied]
    rfl
  rw [planned, silent] at answer
  change _ = (map.images plan >>= _) at answer
  rw [images] at answer
  obtain ⟨response, answered, _⟩ := map_ok answer
  exact ⟨response, _, Prod.ext answered rfl, rows⟩

end Stored

theorem getItem_unreadable {engine : Engine} (steady : ¬engine.Fragile) {request : GetItemRequest}
    {plan : ReadPlan}
    (planned : (engine.planGet request.table request.key request.projection request.names).result =
      .ok plan) {session : Session}
    (unread : session.store.item? ⟨plan.table.name, none⟩ plan.key = none) :
    ((engine.getItem request).exec session).1 = .error .store := by
  have failed := @getItem_planned engine session steady request plan planned
  rw [unread] at failed
  cases outcome : ((engine.getItem request).exec session).1 with
  | ok response =>
      rw [outcome] at failed
      cases failed
  | error failure =>
      rw [outcome] at failed
      cases failed
      rfl

end Engine

theorem Item.size_le (item : Item) : item.size ≤ 4 * item.toJson.write.length := by
  show item.toJson.write.utf8Encode.size ≤ _
  rw [List.utf8Encode, List.size_toByteArray]
  induction item.toJson.write with
  | nil => exact Nat.le_refl _
  | cons c rest ih =>
      have short : (String.utf8EncodeChar c).length ≤ 4 := by
        rw [String.length_utf8EncodeChar]
        exact c.utf8Size_le_four
      rw [List.flatMap_cons, List.length_append, List.length_cons]
      omega

def AttributeValue.nested : Nat → AttributeValue
  | 0 => .string "x"
  | levels + 1 => .list [nested levels]

/-! A run in which an update copies one attribute deep into another. -/

namespace DeepCopy

def notes : Table := ⟨"notes", "id", none, [], none⟩

def engine : Engine := ⟨[("notes", notes)], Config.default, [], [], 0⟩

def item (innermost : Item) : Item :=
  [("deep", .nested 58), ("id", .string "a"),
    ("m", .map [("a", .map [("b", .map [("c", .map [("d", .map innermost)])])])])]

def put : PutItemRequest := ⟨"notes", item [], none, .none, none, none, none⟩

def update : UpdateItemRequest :=
  ⟨"notes", [("id", .string "a")], some "SET m.a.b.c.d.e = deep", none, .none, none, none, none⟩

def get : GetItemRequest := ⟨"notes", [("id", .string "a")], none, some "id", [], none⟩

def putPlan : WritePlan :=
  ⟨notes, ⟨.string "a", []⟩, [("id", .string "a")], .put (item []), none, .none, false⟩

def copy : Update :=
  let field (name : String) : PathStep := .field (.literal name)
  ⟨[(⟨.literal "m", [field "a", field "b", field "c", field "d", field "e"]⟩,
    .operand (.path ⟨.literal "deep", []⟩))], [], [], []⟩

def updatePlan : WritePlan :=
  ⟨notes, ⟨.string "a", []⟩, [("id", .string "a")], .update copy, none, .none, false⟩

theorem steady : ¬engine.Fragile := by
  rintro (faulty | ⟨_, member, _⟩)
  · exact faulty rfl
  · cases member

theorem shown : engine.HidesNothing := by
  refine Or.inr fun name table found => ?_
  obtain ⟨rfl, rfl⟩ : name = "notes" ∧ table = notes := by
    simpa [engine] using Dict.mem_of_get?_eq_some found
  rfl

theorem planOfPut_put : engine.planOfPut put = .ok putPlan := by
  have valid : put.item.validate = .ok () := by decide +kernel
  have fits : put.item.size ≤ maxItemSize :=
    Nat.le_trans put.item.size_le (by decide +kernel)
  have sized : Engine.checkItemSize put.item.size = pure () := by
    rw [Engine.checkItemSize, Action.require, if_pos (decide_eq_true fits)]
  simp only [Engine.planOfPut, Engine.planPut, valid, sized]
  rfl

theorem planOfUpdate_update : engine.planOfUpdate update = .ok updatePlan := by
  have parsed : Update.parse "SET m.a.b.c.d.e = deep" = .ok copy :=
    ok_of_toOption (by decide +kernel)
  simp only [Engine.planOfUpdate, update, Engine.planUpdate, Engine.parseUpdate, parsed]
  rfl

theorem updatedOn_item :
    updatePlan.updatedOn copy (some (item [])) = .ok (item [("e", .nested 58)]) := by
  have applied : copy.apply .none (item []) = .ok (item [("e", .nested 58)]) := by
    simp only [Update.apply, copy, List.mapM_nil, pure_bind, Update.applyRemovals,
      List.mergeSort_nil, List.foldl_nil]
    rfl
  have fits : (item [("e", .nested 58)]).size ≤ maxItemSize :=
    Nat.le_trans (Item.size_le _) (by decide +kernel)
  exact WritePlan.updatedOn_ok applied (by decide +kernel) rfl fits

theorem planGet_get : (engine.planGet get.table get.key get.projection get.names).result =
    .ok ⟨notes, ⟨.string "a", []⟩, some [⟨.literal "id", []⟩], []⟩ := by
  have parsed : Projection.parse "id" = .ok [⟨.literal "id", []⟩] :=
    ok_of_toOption (by decide +kernel)
  simp only [get, Engine.planGet, Engine.parsePaths, Engine.parseProjection, parsed]
  rfl

/-- A put and an update succeed, and what the update has stored cannot be read back. -/
theorem unreadable_after_update :
    ∃ response stored, (engine.putItem put).exec (Session.ofStore .empty) =
        (.ok response, stored) ∧
      ∃ response updated, (engine.updateItem update).exec stored = (.ok response, updated) ∧
        ¬updated.store.Readable ∧ ∃ failure,
          ((engine.getItem get).exec updated).1 = .error failure ∧
            failure.code = .internalServerError := by
  have quiet : ∀ hook ∈ engine.hooks, hook.Quiet := nofun
  have named : Named engine.tables := named_of_entries (by decide)
  have listed : engine.tables.get? notes.name = some notes := Dict.get?_cons_self _ _ _
  have started : Records engine.tables (Session.ofStore .empty).store PlainMap.empty :=
    Tracks.empty.records named
  have nothing : (Session.ofStore .empty).store.Readable := fun _ _ _ found => nomatch found
  obtain ⟨putResponse, stored, putRan, records⟩ := Engine.putItem_applied quiet steady shown named
    nothing started (PlainMap.outcome_of_put rfl rfl) ⟨by decide +kernel, by decide⟩ planOfPut_put
  have readable : stored.store.Readable := by
    refine records.readable_of_items fun table _ key found bound => ?_
    rw [itemsAfter] at bound
    split at bound
    · cases bound
      decide +kernel
    · cases bound
  -- Both attributes can be read where they are, but not the one inside the other.
  have bound : PlainMap.bound (itemsAfter PlainMap.empty putPlan (some (item []))) updatePlan =
      some (item []) := itemsAfter_of_same rfl rfl
  have updates := updatedOn_item
  rw [← bound] at updates
  obtain ⟨response, updated, ran, later⟩ := Engine.updateItem_applied quiet steady shown named
    readable records (PlainMap.outcome_of_update rfl rfl updates) ⟨by decide, by decide⟩
    planOfUpdate_update rfl
  have unread : updated.store.item? ⟨notes.name, none⟩ ⟨.string "a", []⟩ = none :=
    later.item?_of_deep listed (itemsAfter_of_same rfl rfl) (by decide +kernel)
  refine ⟨putResponse, stored, putRan, response, updated, ran, ?_, ?_⟩
  · intro readable
    rw [later.item?_of_readable readable listed] at unread
    cases unread
  · exact ⟨.store, Engine.getItem_unreadable steady planGet_get unread, rfl⟩

end DeepCopy
end ItemStore
