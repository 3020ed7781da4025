import ItemStore.Proofs.Engine.Ownership
import ItemStore.Proofs.Engine.Pagination

/-!
Which reads tell of items that have expired. Every read looks at the document it finds. That of an
item says when the item expires, and so does that of a row in an index, if the index keeps the
attribute. An index that leaves it out shows rows of expired items too.
-/

namespace ItemStore

theorem forall₂_comp {α β γ : Type} {r : α → β → Prop} {s : β → γ → Prop} {as : List α}
    {bs : List β} {cs : List γ} (first : List.Forall₂ r as bs) (second : List.Forall₂ s bs cs) :
    List.Forall₂ (fun a c => ∃ b, r a b ∧ s b c) as cs := by
  induction first generalizing cs with
  | nil =>
      cases second
      exact .nil
  | cons here _ ih =>
      cases second with
      | cons there later => exact .cons ⟨_, here, there⟩ (ih later)

namespace Engine

open Action

variable {engine : Engine}

/-! Equal items expire at the same time, and so does what an index keeps of an item. -/

theorem isExpired_of_equal (engine : Engine) (table : Table) {a b : Item}
    (same : a.equal b = true) : engine.isExpired table a = engine.isExpired table b := by
  rw [isExpired, isExpired]
  cases table.ttlAttribute with
  | none => rfl
  | some name =>
      simp only [Option.bind_some]
      rcases Item.get?_of_equal same name with ⟨missing, also⟩ | ⟨value, other, found, also, equal⟩
      · rw [missing, also]
      · rw [found, also]
        cases value <;> cases other <;>
          simp only [AttributeValue.equal, Bool.false_eq_true] at equal
        case number.number => simp only [AttributeValue.parse_eq_of_equalNumbers equal]
        all_goals rfl

theorem isExpired_project (engine : Engine) (index : Index) (table : Table) (item : Item) :
    engine.isExpired table (index.project table item) =
      (table.ttlAttribute.any (index.keeps table) && engine.isExpired table item) := by
  rw [isExpired, isExpired, Index.project]
  cases table.ttlAttribute with
  | none => simp
  | some name =>
      simp only [Option.bind_some, Dict.get?_filter, Option.any_some]
      cases index.keeps table name <;> simp

def ShowsFresh (engine : Engine) (store : Store) (plan : ReadPlan) (shown : Item) : Prop :=
  ∃ item, store.item? plan.space plan.key = some (some item) ∧
    engine.isExpired plan.table item = false ∧
    (projected plan.paths ⟨plan.names, []⟩ item).result = .ok shown

def FindsFresh (engine : Engine) (store : Store) (planned : Except Failure ReadPlan)
    (found : Option Item) : Prop :=
  ∃ plan, planned = .ok plan ∧ ∀ shown, found = some shown → engine.ShowsFresh store plan shown

/-- A row of a table or one of its indexes that may be shown: it is that of an item that has not
expired, or the index leaves out when the item expires. -/
inductive MayShow (engine : Engine) (store : Store) (table : Table) (row : Row) :
    Option String → Prop
  | item {item : Item} (ordered : item.Ordered) (document : row.document = Document.ofItem item)
      (fresh : engine.isExpired table item = false) : MayShow engine store table row none
  | entry {index : Index} {base : RowKey} {item kept : Item} (member : index ∈ table.indexes)
      (stored : store.get? ⟨table.name, none⟩ base = some (Document.ofItem item))
      (ordered : item.Ordered) (formed : index.rowKey? table item = .ok (some row.key))
      (document : row.document = Document.ofItem kept)
      (equal : kept.equal (index.project table item) = true)
      (fresh : table.ttlAttribute.any (index.keeps table) = true →
        engine.isExpired table item = false) :
      MayShow engine store table row (some index.name)

/-- No read tells of an item that has expired, unless an index leaves out that it has. -/
structure HidesExpired (engine : Engine) (session : Session) : Prop where
  get : ∀ request response after, (engine.getItem request).exec session = (.ok response, after) →
    engine.FindsFresh session.store
      (engine.planGet request.table request.key request.projection request.names).result
      response.item
  transactGet : ∀ request response after,
    (engine.transactGet request).exec session = (.ok response, after) →
    List.Forall₂ (fun get found => engine.FindsFresh session.store
      (engine.planGet get.table get.key get.projection get.names).result found)
      request.gets response.items
  batchGet : ∀ request response after,
    (engine.batchGet request).exec session = (.ok response, after) →
    ∀ entry ∈ response.items, ∃ table keys plans, engine.tables.get? entry.1 = some table ∧
      (entry.1, keys) ∈ request.tables ∧ (engine.planKeys table keys).result = .ok plans ∧
      ∀ shown ∈ entry.2, ∃ plan ∈ plans, engine.ShowsFresh session.store plan shown
  page : ∀ (request : PageRequest) response after,
    (request.answer engine).exec session = (.ok response, after) →
    ∃ plan : PagePlan, plan.Fits engine.tables request ∧ ∃ rows : List Row,
      response.count = rows.length ∧ plan.shownAll rows = .ok response.items ∧
      ∀ row ∈ rows, session.store.get? plan.space row.key = some row.document ∧
        engine.MayShow session.store plan.table row (plan.index.map Index.name)

/-! What is found of one item. -/

section Reads

variable {session after : Session}

theorem find_ok {plan : ReadPlan} {found : Option Item}
    (ok : (engine.find plan).exec session = (.ok found, after)) :
    (∀ item, found = some item →
      session.transaction.rows.item? plan.space plan.key = some (some item) ∧
        engine.isExpired plan.table item = false) ∧
      after.transaction = session.transaction := by
  obtain ⟨stored, loaded, loading, rest⟩ := of_exec_bind_ok ok
  obtain ⟨read, rfl⟩ := load_ok loading
  obtain ⟨_, charged, charging, last⟩ := of_exec_bind_ok rest
  cases charging
  cases last
  refine ⟨fun item seen => ?_, rfl⟩
  obtain ⟨same, fresh⟩ := Option.filter_eq_some_iff.mp seen
  rw [← same]
  exact ⟨read, by simpa using fresh⟩

theorem projectFound_ok {plan : ReadPlan} {found : Option Item} {shown : Item}
    (ok : (projectFound plan found).result = .ok (some shown)) :
    ∃ item, found = some item ∧
      (projected plan.paths ⟨plan.names, []⟩ item).result = .ok shown := by
  cases found with
  | none => cases ok
  | some item =>
      obtain ⟨result, projecting, ok⟩ := (still_projected _ _ _).of_bind_ok ok
      cases ok
      exact ⟨item, rfl, projecting⟩

theorem fetch_ok {plan : ReadPlan} {found : Option Item}
    (ok : (engine.fetch plan).exec session = (.ok found, after)) :
    (∀ shown, found = some shown → ∃ item,
      session.transaction.rows.item? plan.space plan.key = some (some item) ∧
        engine.isExpired plan.table item = false ∧
        (projected plan.paths ⟨plan.names, []⟩ item).result = .ok shown) ∧
      after.transaction = session.transaction := by
  obtain ⟨seen, middle, finding, rest⟩ := of_exec_bind_ok ok
  obtain ⟨fresh, kept⟩ := find_ok finding
  have projecting := (still_projectFound _ _).result_eq rest
  rw [still_projectFound] at rest
  cases congrArg Prod.snd rest
  refine ⟨?_, kept⟩
  rintro shown rfl
  obtain ⟨item, rfl, made⟩ := projectFound_ok projecting
  obtain ⟨read, unexpired⟩ := fresh item rfl
  exact ⟨item, read, unexpired, made⟩

theorem fetches_ok {plans : List ReadPlan} {found : List (Option Item)}
    (ok : (plans.mapM engine.fetch).exec session = (.ok found, after)) :
    List.Forall₂ (fun plan found => ∀ shown, found = some shown →
      engine.ShowsFresh session.transaction.rows plan shown) plans found ∧
      after.transaction = session.transaction := by
  have each : ∀ plan ∈ plans, ∀ (middle : Session) found later,
      middle.transaction = session.transaction →
      (engine.fetch plan).exec middle = (.ok found, later) →
      (∀ shown, found = some shown → engine.ShowsFresh session.transaction.rows plan shown) ∧
        later.transaction = session.transaction := by
    intro plan _ middle found later same fetching
    rw [← same]
    exact fetch_ok fetching
  exact mapM_each each rfl ok

theorem opened_ok {α : Type} {next : Action α} {value : α}
    (ok : (do clearLedger; engine.begin; next : Action α).exec session = (.ok value, after)) :
    ∃ opened : Session, opened.transaction.rows = session.store ∧
      next.exec opened = (.ok value, after) := by
  obtain ⟨_, cleared, clearing, rest⟩ := of_exec_bind_ok ok
  obtain ⟨⟨⟩, opened, beginning, last⟩ := of_exec_bind_ok rest
  cases clearing
  have seen := begin_ok beginning
  exact ⟨opened, seen, last⟩

theorem getItem_fresh {request : GetItemRequest} {response : GetItemResponse}
    (ok : (engine.getItem request).exec session = (.ok response, after)) :
    engine.FindsFresh session.store
      (engine.planGet request.table request.key request.projection request.names).result
      response.item := by
  obtain ⟨plan, planned, rest⟩ := (engine.still_planGet _ _ _ _).of_exec_bind_ok ok
  obtain ⟨opened, same, rest⟩ := opened_ok rest
  obtain ⟨found, searched, finding, rest⟩ := of_exec_bind_ok rest
  obtain ⟨_, closed, _, rest⟩ := of_exec_bind_ok rest
  obtain ⟨result, projecting, rest⟩ := (still_projectFound _ _).of_exec_bind_ok rest
  obtain ⟨consumed, _, _, last⟩ := of_exec_bind_ok rest
  cases last
  refine ⟨plan, planned, ?_⟩
  rintro shown rfl
  obtain ⟨item, rfl, shownAs⟩ := projectFound_ok projecting
  obtain ⟨read, fresh⟩ := (find_ok finding).1 item rfl
  rw [same] at read
  exact ⟨item, read, fresh, shownAs⟩

theorem transactGet_fresh {request : TransactGetRequest} {response : TransactGetResponse}
    (ok : (engine.transactGet request).exec session = (.ok response, after)) :
    List.Forall₂ (fun get found => engine.FindsFresh session.store
      (engine.planGet get.table get.key get.projection get.names).result found)
      request.gets response.items := by
  have still (get : TransactGet) :
      (engine.planGet get.table get.key get.projection get.names).Still :=
    engine.still_planGet _ _ _ _
  obtain ⟨_, _, rest⟩ := (still_checkTransactionSize _).of_exec_bind_ok ok
  obtain ⟨plans, planned, rest⟩ := (Still.mapM still _).of_exec_bind_ok rest
  obtain ⟨opened, same, rest⟩ := opened_ok rest
  obtain ⟨found, fetched, fetching, rest⟩ := of_exec_bind_ok rest
  obtain ⟨_, closed, _, rest⟩ := of_exec_bind_ok rest
  obtain ⟨_, scaled, _, rest⟩ := of_exec_bind_ok rest
  obtain ⟨consumed, _, _, last⟩ := of_exec_bind_ok rest
  cases last
  have shows := (fetches_ok fetching).1
  rw [same] at shows
  exact forall₂_comp (mapM_still still planned) shows

theorem fetchAll_ok {name : String} {plans : List ReadPlan} {listed : String × List Item}
    (ok : (engine.fetchAll name plans).exec session = (.ok listed, after)) :
    (listed.1 = name ∧ ∀ shown ∈ listed.2, ∃ plan ∈ plans,
      engine.ShowsFresh session.transaction.rows plan shown) ∧
      after.transaction = session.transaction := by
  obtain ⟨found, fetched, fetching, last⟩ := of_exec_bind_ok ok
  cases last
  obtain ⟨shows, kept⟩ := fetches_ok fetching
  refine ⟨⟨rfl, fun shown member => ?_⟩, kept⟩
  rw [List.mem_filterMap] at member
  obtain ⟨_, listed, rfl⟩ := member
  obtain ⟨plan, asked, fits⟩ := exists_of_mem_right shows listed
  exact ⟨plan, asked, fits shown rfl⟩

theorem batchGet_fresh (named : Named engine.tables) {request : BatchGetRequest}
    {response : BatchGetResponse}
    (ok : (engine.batchGet request).exec session = (.ok response, after)) :
    ∀ entry ∈ response.items, ∃ table keys plans, engine.tables.get? entry.1 = some table ∧
      (entry.1, keys) ∈ request.tables ∧ (engine.planKeys table keys).result = .ok plans ∧
      ∀ shown ∈ entry.2, ∃ plan ∈ plans, engine.ShowsFresh session.store plan shown := by
  have still (known : Table × KeysRequest) :
      (do return (known.1.name, ← engine.planKeys known.1 known.2) :
        Action (String × List ReadPlan)).Still :=
    (engine.still_planKeys _ _).bind fun _ => Still.pure _
  obtain ⟨_, _, rest⟩ := (Still.require _ _).of_exec_bind_ok ok
  obtain ⟨_, _, rest⟩ := (Still.require _ _).of_exec_bind_ok rest
  obtain ⟨plans, planned, rest⟩ := (Still.mapM still _).of_exec_bind_ok rest
  obtain ⟨opened, same, rest⟩ := opened_ok rest
  obtain ⟨found, fetched, fetching, rest⟩ := of_exec_bind_ok rest
  obtain ⟨_, closed, _, rest⟩ := of_exec_bind_ok rest
  obtain ⟨consumed, _, _, last⟩ := of_exec_bind_ok rest
  cases last
  have each : ∀ entry ∈ plans, ∀ (middle : Session) listed later,
      middle.transaction = opened.transaction →
      (engine.fetchAll entry.1 entry.2).exec middle = (.ok listed, later) →
      (listed.1 = entry.1 ∧ ∀ shown ∈ listed.2, ∃ plan ∈ entry.2,
        engine.ShowsFresh opened.transaction.rows plan shown) ∧
        later.transaction = opened.transaction := by
    intro entry _ middle listed later kept fetching
    rw [← kept]
    exact fetchAll_ok fetching
  have shows := (mapM_each each rfl fetching).1
  rw [same] at shows
  rintro ⟨_, items⟩ member
  obtain ⟨⟨name, asked⟩, listed, rfl, fresh⟩ := exists_of_mem_right shows (Dict.mem_ofList member)
  obtain ⟨⟨table, keys⟩, known, planning⟩ := exists_of_mem_right (mapM_still still planned) listed
  obtain ⟨found, given⟩ := mem_knownTables named known
  obtain ⟨_, planning, last⟩ := (engine.still_planKeys _ _).of_bind_ok planning
  cases last
  exact ⟨table, keys, asked, found, given, planning, fresh⟩

end Reads

/-! What a page returns. -/

section Pages

variable {plan : PagePlan} {row : Row} {store : Store} {items : String → RowKey → Option Item}

theorem fresh_of_accepts (accepted : engine.accepts plan row = true) :
    ∃ item, row.document.toItem? = some item ∧ engine.isExpired plan.table item = false := by
  rw [accepts] at accepted
  split at accepted
  · cases accepted
  · rename_i item read
    rw [Bool.and_eq_true, Bool.not_eq_true'] at accepted
    exact ⟨item, read, accepted.1⟩

theorem mayShow_of_owned (records : Records engine.tables store items) {table : Table}
    (listed : engine.tables.get? table.name = some table) {owner : Option String}
    (owned : Owned engine.tables items ⟨table.name, owner⟩ row.key row.document) {found : Item}
    (read : row.document.toItem? = some found) (fresh : engine.isExpired table found = false) :
    engine.MayShow store table row owner := by
  obtain ⟨key, document⟩ := row
  generalize here : (⟨table.name, owner⟩ : Space) = space at owned
  cases owned with
  | @item other _ item otherListed stored =>
      obtain ⟨sameName, rfl⟩ := Space.mk.inj here
      obtain rfl : other = table := by
        rw [← sameName, listed] at otherListed
        exact (Option.some.inj otherListed).symm
      have ordered := (records.accepted other listed key item stored).ordered
      rw [Document.eq_of_toItem?_ofItem ordered read] at fresh
      exact .item ordered rfl fresh
  | @entry other index base _ item kept otherListed member stored formed keptOrdered equal =>
      obtain ⟨sameName, rfl⟩ := Space.mk.inj here
      obtain rfl : other = table := by
        rw [← sameName, listed] at otherListed
        exact (Option.some.inj otherListed).symm
      have ordered := (records.accepted other listed base item stored).ordered
      have base : store.get? ⟨other.name, none⟩ base = some (Document.ofItem item) := by
        rw [records.base other listed, stored]
        rfl
      -- The row itself was tested, so that the test tells of the item only what the index keeps.
      rw [Document.eq_of_toItem?_ofItem keptOrdered read, engine.isExpired_of_equal other equal,
        isExpired_project] at fresh
      refine .entry member base ordered formed rfl equal fun keeps => ?_
      rwa [keeps, Bool.true_and] at fresh

theorem mayShow_of_returned (records : Records engine.tables store items)
    (listed : engine.tables.get? plan.table.name = some plan.table)
    (member : row ∈ engine.returned plan store) :
    store.get? plan.space row.key = some row.document ∧
      engine.MayShow store plan.table row (plan.index.map Index.name) := by
  obtain ⟨selected, accepted⟩ := of_mem_returned member
  have stored := Store.mem_rowsOf.mp (RangeQuery.mem_selected.mp selected).1
  obtain ⟨item, read, fresh⟩ := fresh_of_accepts accepted
  exact ⟨stored, mayShow_of_owned records listed (records.owned _ _ _ stored) read fresh⟩

end Pages

end Engine

theorem PageRequest.again_self (request : PageRequest) :
    ∃ limit start, request.again limit start = request := by
  cases request with
  | query request => exact ⟨request.limit, request.startKey, rfl⟩
  | scan request => exact ⟨request.limit, request.startKey, rfl⟩

/-- After any run of requests no read tells of an expired item, unless it reads an index that leaves
out when items expire. -/
theorem reachable_hidesExpired {engine : Engine} (named : Named engine.tables) {session : Session}
    (reachable : Reachable engine.tables session.store) : engine.HidesExpired session := by
  refine ⟨fun _ _ _ => Engine.getItem_fresh, fun _ _ _ => Engine.transactGet_fresh,
    fun _ _ _ => Engine.batchGet_fresh named, fun request response after ok => ?_⟩
  obtain ⟨limit, start, same⟩ := request.again_self
  rw [← same] at ok
  obtain ⟨plan, planned, answers⟩ := PageRequest.answer_ok ok
  obtain ⟨fits, _⟩ := PageRequest.plan_ok planned
  have listed : engine.tables.get? plan.table.name = some plan.table := by
    rw [named _ _ fits.table]
    exact fits.table
  obtain ⟨items, records⟩ := reachable.records named
  exact ⟨plan, fits, engine.returned plan session.store, answers.count, answers.items,
    fun row member => Engine.mayShow_of_returned records listed member⟩

/-! A note that is overdue, in a table with an index. -/

namespace OverdueNote

def notes (projection : IndexProjection) : Table :=
  ⟨"notes", "id", none, [⟨"by-tag", "tag", none, projection⟩], some "until"⟩

def engine (projection : IndexProjection) : Engine :=
  ⟨[("notes", notes projection)], Config.default, [], [], 5⟩

def note : Item := [("id", .string "a"), ("tag", .string "x"), ("until", .number "1")]

def put : Request := .putItem ⟨"notes", note, none, .none, none, none, none⟩

def session (projection : IndexProjection) : Session :=
  ((engine projection).handle put (Session.ofStore .empty)).2

def get : GetItemRequest := ⟨"notes", [("id", .string "a")], none, none, [], none⟩

def query : QueryRequest :=
  ⟨"notes", some "by-tag", some "tag = :tag", none, none, ⟨[], [(":tag", .string "x")]⟩, none, none,
    none, none, none, none⟩

theorem hidesExpired_after_put : (session .all).store.rows.length = 2 ∧
    (engine .all).isExpired (notes .all) note = true ∧
    (engine .all).HidesExpired (session .all) := by
  have reachable : Reachable (engine .all).tables (session .all).store :=
    .request .empty rfl (nofun) ⟨by decide, by decide⟩
  exact ⟨by decide +kernel, by decide +kernel,
    reachable_hidesExpired (named_of_entries (by decide)) reachable⟩

/-- A get hides the note, and a query of an index that keeps only the keys returns its row. -/
theorem shown_by_keys_only :
    Reachable (engine .keysOnly).tables (session .keysOnly).store ∧
      (engine .keysOnly).isExpired (notes .keysOnly) note = true ∧
      (∃ response after,
        ((engine .keysOnly).getItem get).exec (session .keysOnly) = (.ok response, after) ∧
        response.item = none) ∧
      ∃ response after,
        ((engine .keysOnly).query query).exec (session .keysOnly) = (.ok response, after) ∧
        response.count = 1 ∧
        response.items.any (Item.equal [("id", .string "a"), ("tag", .string "x")]) = true := by
  refine ⟨.request .empty rfl (nofun) ⟨by decide, by decide⟩, by decide +kernel, ?_, ?_⟩
  · have hidden : (((engine .keysOnly).getItem get).exec (session .keysOnly)).1.toOption.any
        (fun response => response.item.isNone) = true := by decide +kernel
    obtain ⟨response, after, ran, none⟩ := Action.ok_of_any hidden
    exact ⟨response, after, ran, Option.isNone_iff_eq_none.mp none⟩
  · have shown : (((engine .keysOnly).query query).exec (session .keysOnly)).1.toOption.any
        (fun response => response.count == 1 &&
          response.items.any (Item.equal [("id", .string "a"), ("tag", .string "x")])) = true := by
      decide +kernel
    obtain ⟨response, after, ran, told⟩ := Action.ok_of_any shown
    obtain ⟨counted, listed⟩ := Bool.and_eq_true_iff.mp told
    exact ⟨response, after, ran, eq_of_beq counted, listed⟩

end OverdueNote
end ItemStore
