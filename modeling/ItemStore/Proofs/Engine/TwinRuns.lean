import ItemStore.Proofs.Engine.ExpiredRows
import ItemStore.Proofs.Engine.Expiry
import ItemStore.Proofs.Engine.SingleWrites

/-!
An expired row behaves as one that is not there. Stores that differ in expired rows alone answer
requests for given keys alike, and differ in no more afterwards.
-/

namespace ItemStore

/-! Reads of one state. -/

namespace Action

variable {α β : Type} {rows : Store}

def Finds (rows : Store) (outcome : Except Failure α) (action : Action α) : Prop :=
  ∀ session, session.transaction = Transaction.begin rows → ∃ after,
    action.exec session = (outcome, after) ∧ after.transaction = Transaction.begin rows

theorem Still.finds {action : Action α} (still : action.Still) : action.Finds rows action.result :=
  fun session opened => ⟨session, still session, opened⟩

theorem Finds.bind {action : Action α} {outcome : Except Failure α} {next : α → Action β}
    {told : α → Except Failure β} (first : action.Finds rows outcome)
    (later : ∀ value, (next value).Finds rows (told value)) :
    (action >>= next).Finds rows (outcome >>= told) := by
  intro session opened
  obtain ⟨middle, ran, kept⟩ := first session opened
  cases outcome with
  | error failure => exact ⟨middle, exec_bind_error ran _, kept⟩
  | ok value =>
      rw [exec_bind_ok ran]
      exact later value middle kept

theorem Finds.mapM {step : α → Action β} {told : α → Except Failure β} {values : List α}
    (each : ∀ value ∈ values, (step value).Finds rows (told value)) :
    (values.mapM step).Finds rows (values.mapM told) := by
  induction values with
  | nil => exact (Still.pure _).finds
  | cons value rest ih =>
      rw [List.mapM_cons, List.mapM_cons]
      exact (each value List.mem_cons_self).bind fun _ =>
        (ih fun other member => each other (List.mem_cons_of_mem _ member)).bind fun _ =>
          (Still.pure _).finds

end Action

namespace Engine

open Action

theorem fetchAll_finds {engine : Engine} {store : Store} {name : String} {plans : List ReadPlan}
    {told : ReadPlan → Except Failure (Option Item)}
    (each : ∀ plan ∈ plans, (engine.fetch plan).Finds store (told plan)) :
    (engine.fetchAll name plans).Finds store
      (plans.mapM told >>= fun found => .ok (name, found.filterMap id)) :=
  (Finds.mapM each).bind fun _ => (Still.pure _).finds

/-- What the map tells of the items that are read in one table. -/
def tellsOf (engine : Engine) (map : PlainMap) (asked : String × List ReadPlan) :
    Except Failure (String × List Item) := do
  let found ← asked.2.mapM fun plan =>
    (projectFound plan (engine.live map plan.table plan.key)).result
  return (asked.1, found.filterMap id)

section Reads

variable {engine : Engine} {store : Store} {map : PlainMap} (steady : ¬engine.Fragile)
  (mirrors : Mirrors engine.tables store map) (readable : store.Readable)

include steady mirrors readable

theorem find_finds {plan : ReadPlan}
    (listed : engine.tables.get? plan.table.name = some plan.table) :
    (engine.find plan).Finds store (.ok (engine.live map plan.table plan.key)) := by
  intro session opened
  have loaded := exec_load_steady steady plan.table plan.key session
  have read : session.transaction.rows.item? ⟨plan.table.name, none⟩ plan.key =
      some (map plan.table.name plan.key) := by
    rw [opened]
    exact mirrors.item?_of_readable readable listed plan.key
  rw [read] at loaded
  rw [find, exec_bind_ok loaded, ← visible_eq_live mirrors readable listed]
  exact ⟨_, rfl, opened⟩

theorem fetch_finds {plan : ReadPlan}
    (listed : engine.tables.get? plan.table.name = some plan.table) :
    (engine.fetch plan).Finds store
      (projectFound plan (engine.live map plan.table plan.key)).result :=
  (find_finds steady mirrors readable listed).bind fun _ => (still_projectFound _ _).finds

end Reads

/-! Two runs of one request. -/

section Alike

variable {α β γ : Type} {engine : Engine} {view : β → γ}

def Alike (engine : Engine) (view : α → γ) (action : Action α) (first second : Session) : Prop :=
  (action.exec first).1.map view = (action.exec second).1.map view ∧
    ∃ a b, engine.Twins (action.exec first).2.store (action.exec second).2.store a b

theorem Alike.bind {action : Action α} {next : α → Action β} {first second : Session}
    (here : engine.Alike id action first second)
    (later : ∀ value first second, (∃ a b, engine.Twins first.store second.store a b) →
      engine.Alike view (next value) first second) :
    engine.Alike view (action >>= next) first second := by
  obtain ⟨same, twins⟩ := here
  rw [Alike, exec_bind, exec_bind]
  generalize action.exec first = left at same twins ⊢
  generalize action.exec second = right at same twins ⊢
  rcases left with ⟨failure | value, left⟩ <;> rcases right with ⟨other | found, right⟩ <;>
    cases same
  · exact ⟨rfl, twins⟩
  · exact later value left right twins

theorem Alike.still_bind {action : Action α} (still : action.Still) {next : α → Action β}
    {first second : Session} (twins : ∃ a b, engine.Twins first.store second.store a b)
    (later : ∀ value, action.result = .ok value →
      engine.Alike view (next value) first second) :
    engine.Alike view (action >>= next) first second := by
  rw [Alike, exec_bind_still still, exec_bind_still still]
  cases outcome : action.result with
  | error failure => exact ⟨rfl, twins⟩
  | ok value => exact later value outcome

end Alike

section Requests

variable {engine : Engine} {first second : Session} {a b : PlainMap}
  (quiet : ∀ hook ∈ engine.hooks, hook.Quiet) (steady : ¬engine.Fragile)
  (distinct : DistinctIndexes engine.tables)
  (twins : engine.Twins first.store second.store a b) (one : first.store.Readable)
  (other : second.store.Readable)

include twins one other

theorem seen_eq {plan : WritePlan} (sound : plan.Sound engine.tables) :
    engine.seen first.store plan = engine.seen second.store plan := by
  rw [seen, seen, bound_of_ready twins.first (Ready.of_mirrors twins.first one sound),
    bound_of_ready twins.second (Ready.of_mirrors twins.second other sound)]
  show engine.visible plan.table (a plan.table.name plan.key) =
    engine.visible plan.table (b plan.table.name plan.key)
  rw [visible_eq_live twins.first one sound.listed, visible_eq_live twins.second other sound.listed,
    twins.same plan.table sound.listed plan.key]

theorem outcome_alike {plan : WritePlan} (sound : plan.Sound engine.tables) :
    (engine.effectOn first.store plan).map Effect.outcome =
      (engine.effectOn second.store plan).map Effect.outcome := by
  rw [outcome_eq_outcomeOn, outcome_eq_outcomeOn, seen_eq twins one other sound]

include quiet steady distinct

theorem writeAlone_alike {plan : WritePlan} (sound : plan.Sound engine.tables) :
    engine.Alike id (engine.writeAlone plan) first second := by
  have left := Ready.of_mirrors twins.first one sound
  have right := Ready.of_mirrors twins.second other sound
  have same := outcome_alike twins one other sound
  obtain ⟨after, ran, written, _⟩ :
      ∃ after, (engine.executeAlone plan).exec { first with ledger := [] } =
          ((engine.effectOn first.store plan).map Effect.outcome, after) ∧
        after.store = first.store.after (engine.writesOn first.store plan) ∧ _ :=
    executeAlone_on quiet steady left rfl
  obtain ⟨last, alsoRan, alsoWritten, _⟩ :
      ∃ last, (engine.executeAlone plan).exec { second with ledger := [] } =
          ((engine.effectOn second.store plan).map Effect.outcome, last) ∧
        last.store = second.store.after (engine.writesOn second.store plan) ∧ _ :=
    executeAlone_on quiet steady right rfl
  have kept := twins_after_plan distinct twins left right same
  rw [← written, ← alsoWritten] at kept
  rw [Alike, writeAlone, exec_bind_ok (exec_clearLedger first),
    exec_bind_ok (exec_clearLedger second), exec_bind, exec_bind, ran, alsoRan, same]
  rcases (engine.effectOn second.store plan).map Effect.outcome with
    failure | ⟨old, new⟩ | _ | item <;> exact ⟨rfl, kept⟩

theorem writeSingle_alike {planned : Except Failure WritePlan}
    {attributes : WritePlan → Option Item × Option Item → Action (Option Item)}
    {capacity : Option CapacityDetail}
    (sound : ∀ plan, planned = .ok plan → plan.Sound engine.tables)
    (still : ∀ plan images, (attributes plan images).Still) :
    engine.Alike WriteResponse.attributes (engine.writeSingle planned attributes capacity) first
      second := by
  refine Alike.still_bind (Still.ofExcept _ _) ⟨a, b, twins⟩ fun plan planning => ?_
  have alone := writeAlone_alike quiet steady distinct twins one other
    (sound plan (of_ofExcept_ok planning))
  refine alone.bind fun images first second twins => ?_
  exact Alike.still_bind (still plan images) twins fun shown _ => ⟨rfl, twins⟩

variable (named : Named engine.tables)

include named

theorem batchWrite_alike {request : BatchWriteRequest}
    (ordered : (Request.batchWrite request).Ordered) :
    engine.Alike BatchWriteResponse.unprocessed (engine.batchWrite request) first second := by
  refine Alike.still_bind (Still.require _ _) ⟨a, b, twins⟩ fun _ _ => ?_
  refine Alike.still_bind (Still.require _ _) ⟨a, b, twins⟩ fun _ _ => ?_
  refine Alike.still_bind (engine.still_planBatchWrites _ _) ⟨a, b, twins⟩ fun writes planned => ?_
  have sound : ∀ write ∈ writes, write.plan.Sound engine.tables :=
    planBatchWrites_sound (ordered_batchedWrites named ordered) planned
  have left : ∀ write ∈ writes, engine.Ready first.store write.plan :=
    fun write member => Ready.of_mirrors twins.first one (sound write member)
  have right : ∀ write ∈ writes, engine.Ready second.store write.plan :=
    fun write member => Ready.of_mirrors twins.second other (sound write member)
  have unconditional : ∀ write ∈ writes, write.plan.Unconditional :=
    fun write member => (engine.planBatchWrites_ok planned write member).2
  have apart := planBatchWrites_apart planned
  obtain ⟨after, ran, written⟩ := writeEach_on quiet steady left unconditional apart
    { first with ledger := [] } fun _ _ => rfl
  obtain ⟨last, alsoRan, alsoWritten⟩ := writeEach_on quiet steady right unconditional apart
    { second with ledger := [] } fun _ _ => rfl
  rw [Alike, exec_bind_ok (exec_clearLedger first), exec_bind_ok (exec_clearLedger second),
    exec_bind_ok ran, exec_bind_ok alsoRan]
  refine ⟨rfl, ?_⟩
  have kept := twins_after_plans distinct (List.forall_mem_map.mpr left)
    (List.forall_mem_map.mpr right)
    (List.forall_mem_map.mpr fun write member => outcome_alike twins one other (sound write member))
    apart (fun _ _ => rfl) (fun _ _ => rfl) twins
  exact written ▸ alsoWritten ▸ kept

theorem transactWrite_alike {request : TransactWriteRequest}
    (ordered : (Request.transactWrite request).Ordered) :
    engine.Alike (fun _ => ()) (engine.transactWrite request) first second := by
  refine Alike.still_bind (still_checkTransactionSize _) ⟨a, b, twins⟩ fun _ _ => ?_
  refine Alike.still_bind (engine.still_planTransactWrites _ _) ⟨a, b, twins⟩
    fun plans planned => ?_
  have sound := planTransactWrites_sound named ordered planned
  have left : ∀ plan ∈ plans, engine.Ready first.store plan :=
    fun plan member => Ready.of_mirrors twins.first one (sound plan member)
  have right : ∀ plan ∈ plans, engine.Ready second.store plan :=
    fun plan member => Ready.of_mirrors twins.second other (sound plan member)
  have apart := planTransactWrites_apart List.Pairwise.nil planned
  have same : ∀ plan ∈ plans, engine.outcomeAlone first plan = engine.outcomeAlone second plan := by
    intro plan member
    rw [outcomeAlone_eq quiet steady (left plan member),
      outcomeAlone_eq quiet steady (right plan member)]
    exact outcome_alike twins one other (sound plan member)
  obtain ⟨performed, performing, written, _⟩ := perform_all quiet steady left apart
  obtain ⟨last, alsoPerforming, alsoWritten, _⟩ := perform_all quiet steady right apart
  rw [List.map_congr_left fun plan member => congrArg reasonFor (same plan member)] at performing
  have kept : ∀ {session performed : Session} {reasons : List CancellationReason},
      (plans.mapM engine.perform).exec
        { session with transaction := Transaction.begin session.store, ledger := [] } =
          (.ok reasons, performed) → performed.store = session.store := by
    intro session performed reasons performing
    have keeps := Keeps.mapM engine.keeps_perform plans
      { session with transaction := Transaction.begin session.store, ledger := [] }
    rw [performing] at keeps
    exact keeps
  rw [Alike, exec_open_steady steady, exec_open_steady steady, exec_bind_ok performing,
    exec_bind_ok alsoPerforming]
  split
  · rw [exec_bind_ok (exec_commit_steady steady _), exec_bind_ok (exec_commit_steady steady _)]
    refine ⟨rfl, ?_⟩
    have after := twins_after_plans distinct left right
      (fun plan member => outcome_alike twins one other (sound plan member)) apart
      (fun _ _ => rfl) (fun _ _ => rfl) twins
    exact written ▸ alsoWritten ▸ after
  · rw [exec_bind_ok (exec_rollback_steady steady _), exec_bind_ok (exec_rollback_steady steady _)]
    have stores : performed.store = first.store ∧ last.store = second.store :=
      ⟨kept performing, kept alsoPerforming⟩
    exact ⟨rfl, a, b, stores.1 ▸ stores.2 ▸ twins⟩

end Requests

section Reads

variable {engine : Engine} {first second : Session} {a b : PlainMap} (steady : ¬engine.Fragile)
  (twins : engine.Twins first.store second.store a b)

include steady twins

theorem Alike.reading {α β γ : Type} {view : β → γ} {action : Action α}
    {outcome : Except Failure α} {next : α → Action β} (left : action.Finds first.store outcome)
    (right : action.Finds second.store outcome)
    (later : ∀ value first second, (∃ a b, engine.Twins first.store second.store a b) →
      engine.Alike view (next value) first second) :
    engine.Alike view
      (do clearLedger; engine.begin; let value ← action; engine.rollback; next value)
      first second := by
  obtain ⟨found, ran, kept⟩ :=
    left { first with transaction := Transaction.begin first.store, ledger := [] } rfl
  obtain ⟨alsoFound, alsoRan, alsoKept⟩ :=
    right { second with transaction := Transaction.begin second.store, ledger := [] } rfl
  have stores : found.store = first.store ∧ alsoFound.store = second.store := by
    constructor
    · rw [Session.store, kept]
      rfl
    · rw [Session.store, alsoKept]
      rfl
  have still : engine.Twins found.store alsoFound.store a b := stores.1 ▸ stores.2 ▸ twins
  rw [Alike, exec_open_steady steady, exec_open_steady steady]
  cases outcome with
  | error failure =>
      rw [exec_bind_error ran, exec_bind_error alsoRan]
      exact ⟨rfl, a, b, still⟩
  | ok value =>
      rw [exec_bind_ok ran, exec_bind_ok alsoRan, exec_bind_ok (exec_rollback_steady steady _),
        exec_bind_ok (exec_rollback_steady steady _)]
      exact later value _ _ ⟨a, b, still⟩

variable (one : first.store.Readable) (other : second.store.Readable)

include one other

theorem fetch_alike {plan : ReadPlan}
    (listed : engine.tables.get? plan.table.name = some plan.table) :
    (engine.fetch plan).Finds first.store
        (projectFound plan (engine.live a plan.table plan.key)).result ∧
      (engine.fetch plan).Finds second.store
        (projectFound plan (engine.live a plan.table plan.key)).result := by
  refine ⟨fetch_finds steady twins.first one listed, ?_⟩
  rw [twins.same plan.table listed plan.key]
  exact fetch_finds steady twins.second other listed

variable (named : Named engine.tables)

include named

theorem getItem_alike (request : GetItemRequest) :
    engine.Alike GetItemResponse.item (engine.getItem request) first second := by
  refine Alike.still_bind (engine.still_planGet _ _ _ _) ⟨a, b, twins⟩ fun plan planned => ?_
  have listed := table_listed named (planGet_ok planned).1
  have left := find_finds steady twins.first one listed
  have right := find_finds steady twins.second other listed
  rw [← twins.same plan.table listed plan.key] at right
  refine Alike.reading steady twins left right fun found first second twins => ?_
  exact Alike.still_bind (still_projectFound _ _) twins fun item _ => ⟨rfl, twins⟩

theorem transactGet_alike (request : TransactGetRequest) :
    engine.Alike TransactGetResponse.items (engine.transactGet request) first second := by
  have planning (get : TransactGet) :
      (engine.planGet get.table get.key get.projection get.names).Still :=
    engine.still_planGet _ _ _ _
  refine Alike.still_bind (still_checkTransactionSize _) ⟨a, b, twins⟩ fun _ _ => ?_
  refine Alike.still_bind (Still.mapM planning _) ⟨a, b, twins⟩ fun plans planned => ?_
  have listed : ∀ plan ∈ plans, engine.tables.get? plan.table.name = some plan.table := by
    intro plan member
    obtain ⟨get, _, found⟩ := exists_of_mem_right (mapM_still planning planned) member
    exact table_listed named (planGet_ok found).1
  have left := Finds.mapM fun plan member =>
    (fetch_alike steady twins one other (listed plan member)).1
  have right := Finds.mapM fun plan member =>
    (fetch_alike steady twins one other (listed plan member)).2
  exact Alike.reading steady twins left right fun items first second twins => ⟨rfl, twins⟩

theorem batchGet_alike (request : BatchGetRequest) :
    engine.Alike (fun response => (response.items, response.unprocessed)) (engine.batchGet request)
      first second := by
  have planning (known : Table × KeysRequest) :
      (do return (known.1.name, ← engine.planKeys known.1 known.2) :
        Action (String × List ReadPlan)).Still :=
    (engine.still_planKeys _ _).bind fun _ => Still.pure _
  refine Alike.still_bind (Still.require _ _) ⟨a, b, twins⟩ fun _ _ => ?_
  refine Alike.still_bind (Still.require _ _) ⟨a, b, twins⟩ fun _ _ => ?_
  refine Alike.still_bind (Still.mapM planning _) ⟨a, b, twins⟩ fun entries planned => ?_
  have listed : ∀ entry ∈ entries, ∀ plan ∈ entry.2,
      engine.tables.get? plan.table.name = some plan.table := by
    intro entry member plan asked
    obtain ⟨known, there, found⟩ := exists_of_mem_right (mapM_still planning planned) member
    obtain ⟨plans, made, last⟩ := (engine.still_planKeys _ _).of_bind_ok found
    cases last
    rw [planKeys_ok made plan asked]
    exact (mem_knownTables named there).1
  have left : (entries.mapM fun (name, plans) => engine.fetchAll name plans).Finds first.store
      (entries.mapM (engine.tellsOf a)) := Finds.mapM fun entry member => fetchAll_finds fun plan asked =>
    (fetch_alike steady twins one other (listed entry member plan asked)).1
  have right : (entries.mapM fun (name, plans) => engine.fetchAll name plans).Finds second.store
      (entries.mapM (engine.tellsOf a)) := Finds.mapM fun entry member => fetchAll_finds fun plan asked =>
    (fetch_alike steady twins one other (listed entry member plan asked)).2
  exact Alike.reading steady twins left right fun items first second twins => ⟨rfl, twins⟩

end Reads

end Engine

def Response.withoutCapacity : Response → Response
  | .item response => .item { response with consumed := none }
  | .written response => .written { response with consumed := none }
  | .page response => .page { response with consumed := none }
  | .batchGet response => .batchGet { response with consumed := [] }
  | .batchWrite response => .batchWrite { response with consumed := [] }
  | .transactGet response => .transactGet { response with consumed := [] }
  | .transactWrite _ => .transactWrite ⟨[]⟩

def Request.ByKey : Request → Prop
  | .query _ | .scan _ => False
  | _ => True

namespace Engine

structure AnswersAlike (engine : Engine) (first second : Session) : Prop where
  answer : ∀ request : Request, request.Ordered → request.ByKey →
    (engine.handle request first).1.map Response.withoutCapacity =
      (engine.handle request second).1.map Response.withoutCapacity
  related : ∀ request : Request, request.Ordered → request.ByKey →
    engine.Related (engine.handle request first).2.store (engine.handle request second).2.store

theorem Alike.response {α γ : Type} {engine : Engine} {first second : Session} {view : α → γ}
    {action : Action α} {wrap : α → Response} (alike : engine.Alike view action first second)
    (told : ∀ value other, view value = view other →
      (wrap value).withoutCapacity = (wrap other).withoutCapacity) :
    engine.Alike Response.withoutCapacity (do return wrap (← action)) first second := by
  obtain ⟨same, twins⟩ := alike
  rw [Alike, Action.exec_bind, Action.exec_bind]
  generalize action.exec first = left at same twins ⊢
  generalize action.exec second = right at same twins ⊢
  rcases left with ⟨failure | value, left⟩ <;> rcases right with ⟨other | found, right⟩
  · cases same
    exact ⟨rfl, twins⟩
  · cases same
  · cases same
  · exact ⟨congrArg Except.ok (told value found (Except.ok.inj same)), twins⟩

theorem answer_alike {engine : Engine} {first second : Session} {a b : PlainMap}
    (quiet : ∀ hook ∈ engine.hooks, hook.Quiet) (steady : ¬engine.Fragile)
    (named : Named engine.tables) (distinct : DistinctIndexes engine.tables)
    (twins : engine.Twins first.store second.store a b) (one : first.store.Readable)
    (other : second.store.Readable) {request : Request} (ordered : request.Ordered)
    (byKey : request.ByKey) :
    engine.Alike Response.withoutCapacity (engine.answer request) first second := by
  have written : ∀ {action : Action WriteResponse},
      engine.Alike WriteResponse.attributes action first second →
      engine.Alike Response.withoutCapacity (do return .written (← action)) first second := by
    intro action alike
    refine alike.response ?_
    rintro ⟨_, _⟩ ⟨_, _⟩ rfl
    rfl
  cases request with
  | getItem request =>
      refine (getItem_alike steady twins one other named request).response ?_
      rintro ⟨_, _⟩ ⟨_, _⟩ rfl
      rfl
  | putItem request =>
      refine written ?_
      rw [putItem_eq]
      exact writeSingle_alike quiet steady distinct twins one other
        (fun _ => planOfPut_sound named ordered) (still_oldIfWanted _)
  | updateItem request =>
      refine written ?_
      rw [updateItem_eq]
      exact writeSingle_alike quiet steady distinct twins one other
        (fun _ => planOfUpdate_sound named ordered) (still_partsIfWanted _)
  | deleteItem request =>
      refine written ?_
      rw [deleteItem_eq]
      exact writeSingle_alike quiet steady distinct twins one other
        (fun _ => planOfDelete_sound named ordered) (still_oldIfWanted _)
  | query request => exact byKey.elim
  | scan request => exact byKey.elim
  | batchGet request =>
      refine (batchGet_alike steady twins one other named request).response ?_
      rintro ⟨_, _, _⟩ ⟨_, _, _⟩ same
      cases same
      rfl
  | batchWrite request =>
      refine (batchWrite_alike quiet steady distinct twins one other named ordered).response ?_
      rintro ⟨_, _⟩ ⟨_, _⟩ rfl
      rfl
  | transactGet request =>
      refine (transactGet_alike steady twins one other named request).response ?_
      rintro ⟨_, _⟩ ⟨_, _⟩ rfl
      rfl
  | transactWrite request =>
      exact (transactWrite_alike quiet steady distinct twins one other named ordered).response
        fun _ _ _ => rfl

end Engine

/-- An expired row behaves as one that is not there: requests for given keys are answered alike
whether there are such rows or not, and what they leave differs in no others. -/
theorem Engine.Related.answersAlike {engine : Engine} (named : Named engine.tables)
    (distinct : DistinctIndexes engine.tables) (quiet : ∀ hook ∈ engine.hooks, hook.Quiet)
    (steady : ¬engine.Fragile) {first second : Session}
    (related : engine.Related first.store second.store)
    (reachable : Reachable engine.tables first.store) (readable : first.store.Readable)
    (otherReachable : Reachable engine.tables second.store)
    (otherReadable : second.store.Readable) : engine.AnswersAlike first second := by
  obtain ⟨a, one⟩ := reachable.mirrors named distinct
  obtain ⟨b, other⟩ := otherReachable.mirrors named distinct
  have alike : ∀ request : Request, request.Ordered → request.ByKey →
      engine.Alike Response.withoutCapacity (engine.answer request) first second :=
    fun _ => Engine.answer_alike quiet steady named distinct
      (related.twins one other readable otherReadable) readable otherReadable
  refine ⟨fun request ordered byKey => (alike request ordered byKey).1,
    fun request ordered byKey => ?_⟩
  obtain ⟨_, _, twins⟩ := (alike request ordered byKey).2
  exact twins.related

namespace OverdueNote

theorem related_empty : (engine .all).Related (session .all).store .empty := by
  have notes_of_listed : ∀ {table : Table}, (engine .all).tables.get? table.name = some table →
      table = notes .all := by
    intro table listed
    exact (Prod.mk.inj (List.mem_singleton.mp (Dict.mem_of_get?_eq_some listed))).2
  have hidden : ∀ entry ∈ (session .all).store.rows,
      (entry.1.space = ⟨"notes", none⟩ →
        (engine .all).hides (notes .all) (session .all).store entry.1.key = true) ∧
      (entry.1.space = ⟨"notes", some "by-tag"⟩ →
        ((⟨"by-tag", "tag", none, .all⟩ : Index).owner? entry.1.key).any
          ((engine .all).hides (notes .all) (session .all).store) = true) := by
    decide +kernel
  refine Engine.related_empty ?_ ?_
  · intro table listed key document found
    cases notes_of_listed listed
    exact (hidden _ (Dict.mem_of_get?_eq_some found)).1 rfl
  · intro table listed index member key document found
    cases notes_of_listed listed
    cases List.mem_singleton.mp member
    exact (hidden _ (Dict.mem_of_get?_eq_some found)).2 rfl

theorem answersAlike_empty : (session .all).store.rows.length = 2 ∧
    (engine .all).AnswersAlike (session .all) (Session.ofStore .empty) := by
  have quiet : ∀ hook ∈ (engine .all).hooks, hook.Quiet := fun _ member => nomatch member
  have steady : ¬(engine .all).Fragile := by
    rintro (faulty | ⟨_, member, _⟩)
    · exact faulty rfl
    · cases member
  have reachable : Reachable (engine .all).tables (session .all).store :=
    .request .empty rfl quiet ⟨by decide, by decide⟩
  obtain ⟨two, readable⟩ : (session .all).store.rows.length = 2 ∧
      ∀ entry ∈ (session .all).store.rows, entry.2.toItem?.isSome = true := by decide +kernel
  exact ⟨two, related_empty.answersAlike (named_of_entries (by decide))
    (distinctIndexes_of_entries (by decide)) quiet steady reachable
    (Store.readable_of_all readable) .empty (Store.readable_of_all (by decide))⟩

end OverdueNote
end ItemStore
