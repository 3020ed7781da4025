import ItemStore.Proofs.Engine.Atomicity
import ItemStore.Proofs.Engine.Effects

/-!
Runs of requests. What the effect of every plan keeps every request keeps, whether it succeeds or
fails, and so does every run of requests from an empty store.
-/

namespace ItemStore

/-! Items and operands of a request are maps in order, at every depth. -/

def BatchWrite.Ordered (write : BatchWrite) : Prop :=
  ∀ item, write.put = some item ∨ write.delete = some item → item.Ordered

instance (write : BatchWrite) : Decidable write.Ordered :=
  decidable_of_iff
    ((∀ item ∈ write.put, item.Ordered) ∧ ∀ item ∈ write.delete, item.Ordered)
    ⟨fun each item given => given.elim (each.1 item) (each.2 item),
      fun ordered => ⟨fun item put => ordered item (.inl put),
        fun item delete => ordered item (.inr delete)⟩⟩

structure TransactWrite.Ordered (write : TransactWrite) : Prop where
  check : ∀ check, write.check = some check →
    check.key.Ordered ∧ Item.Ordered check.bindings.values
  put : ∀ put, write.put = some put → put.item.Ordered ∧ Item.Ordered put.bindings.values
  delete : ∀ delete, write.delete = some delete →
    delete.key.Ordered ∧ Item.Ordered delete.bindings.values
  update : ∀ update, write.update = some update →
    update.key.Ordered ∧ Item.Ordered update.bindings.values

def Request.Ordered : Request → Prop
  | .putItem request => request.item.Ordered ∧ Item.Ordered request.bindings.values
  | .updateItem request => request.key.Ordered ∧ Item.Ordered request.bindings.values
  | .deleteItem request => request.key.Ordered ∧ Item.Ordered request.bindings.values
  | .batchWrite request => ∀ entry ∈ request.tables, ∀ write ∈ entry.2, write.Ordered
  | .transactWrite request => ∀ write ∈ request.writes, write.Ordered
  | .getItem _ | .query _ | .scan _ | .batchGet _ | .transactGet _ => True

def Named (tables : Dict String Table) : Prop :=
  ∀ name table, tables.get? name = some table → table.name = name

theorem named_of_entries {tables : Dict String Table}
    (same : ∀ entry ∈ tables, entry.2.name = entry.1) : Named tables :=
  fun _ _ found => same _ (Dict.mem_of_get?_eq_some found)

/-- A plan that has been made for one of the tables. -/
structure WritePlan.Sound (tables : Dict String Table) (plan : WritePlan) : Prop where
  prepared : plan.Prepared
  listed : tables.get? plan.table.name = some plan.table
  key : plan.keyItem.Ordered
  item : ∀ item, plan.action = .put item → item.Ordered
  values : Item.Ordered plan.bindings.values

namespace Engine

open Action

variable {engine : Engine} {table : Table} {bindings : Bindings} {returnsOld : Bool}
  {plan : WritePlan}

theorem planPut_sound {item : Item} {condition : Option String}
    (ok : (engine.planPut table item condition bindings returnsOld).result = .ok plan)
    (listed : engine.tables.get? table.name = some table) (ordered : item.Ordered)
    (values : Item.Ordered bindings.values) : plan.Sound engine.tables := by
  obtain ⟨prepared, rfl, action, rfl, keyItem, _⟩ := planPut_ok ok
  refine ⟨prepared, listed, ?_, ?_, values⟩
  · rw [keyItem]
    exact Item.ordered_filter ordered _
  · intro other same
    rw [action] at same
    cases same
    exact ordered

theorem planUpdate_sound {key : Item} {update condition : Option String}
    (ok : (engine.planUpdate table key update condition bindings returnsOld).result = .ok plan)
    (listed : engine.tables.get? table.name = some table) (ordered : key.Ordered)
    (values : Item.Ordered bindings.values) : plan.Sound engine.tables := by
  obtain ⟨prepared, rfl, ⟨update, action⟩, rfl, rfl, _⟩ := planUpdate_ok ok
  refine ⟨prepared, listed, ordered, ?_, values⟩
  intro item same
  rw [action] at same
  cases same

theorem planDelete_sound {key : Item} {condition : Option String}
    (ok : (engine.planDelete table key condition bindings returnsOld).result = .ok plan)
    (listed : engine.tables.get? table.name = some table) (ordered : key.Ordered)
    (values : Item.Ordered bindings.values) : plan.Sound engine.tables := by
  obtain ⟨prepared, rfl, action, rfl, rfl, _⟩ := planDelete_ok ok
  refine ⟨prepared, listed, ordered, ?_, values⟩
  intro item same
  rw [action] at same
  cases same

theorem planCheck_sound {key : Item} {condition : String}
    (ok : (engine.planCheck table key condition bindings returnsOld).result = .ok plan)
    (listed : engine.tables.get? table.name = some table) (ordered : key.Ordered)
    (values : Item.Ordered bindings.values) : plan.Sound engine.tables := by
  obtain ⟨prepared, rfl, action, rfl, rfl, _⟩ := planCheck_ok ok
  refine ⟨prepared, listed, ordered, ?_, values⟩
  intro item same
  rw [action] at same
  cases same

theorem table_listed {name : String} (named : Named engine.tables)
    (ok : (engine.table name).result = .ok table) :
    engine.tables.get? table.name = some table := by
  have found := table_ok ok
  rw [named name table found, found]

theorem planTransactWrite_sound {request : TransactWrite} (named : Named engine.tables)
    (ordered : request.Ordered) (ok : (engine.planTransactWrite request).result = .ok plan) :
    plan.Sound engine.tables := by
  cases planTransactWrite_ok ok with
  | check found planned =>
      obtain ⟨key, values⟩ := ordered.check _ rfl
      exact planCheck_sound planned (table_listed named found) key values
  | put found planned =>
      obtain ⟨item, values⟩ := ordered.put _ rfl
      exact planPut_sound planned (table_listed named found) item values
  | delete found planned =>
      obtain ⟨key, values⟩ := ordered.delete _ rfl
      exact planDelete_sound planned (table_listed named found) key values
  | update found planned =>
      obtain ⟨key, values⟩ := ordered.update _ rfl
      exact planUpdate_sound planned (table_listed named found) key values

theorem planTransactWrites_sound {requests : List TransactWrite} {plans : List WritePlan}
    (named : Named engine.tables) (ordered : ∀ request ∈ requests, request.Ordered)
    (ok : (engine.planTransactWrites [] requests).result = .ok plans) :
    ∀ plan ∈ plans, plan.Sound engine.tables := by
  intro plan member
  rcases of_mem_planTransactWrites ok member with none | ⟨request, listed, planned⟩
  · cases none
  · exact planTransactWrite_sound named (ordered request listed) planned

theorem planBatchWrite_sound {request : BatchWrite} (ordered : request.Ordered)
    (listed : engine.tables.get? table.name = some table)
    (ok : (engine.planBatchWrite table request).result = .ok plan) : plan.Sound engine.tables := by
  have none : Item.Ordered Bindings.none.values := ⟨Dict.ascending_nil, trivial⟩
  rw [planBatchWrite] at ok
  split at ok
  · rename_i item given _
    exact planPut_sound ok listed (ordered item (Or.inl given)) none
  · rename_i key _ given
    exact planDelete_sound ok listed (ordered key (Or.inr given)) none
  · cases ok

theorem planBatchWrites_sound {requests : List (Table × BatchWrite)}
    {writes : List PlannedWrite}
    (ordered : ∀ request ∈ requests, request.2.Ordered ∧
      engine.tables.get? request.1.name = some request.1)
    (ok : (engine.planBatchWrites [] requests).result = .ok writes) :
    ∀ write ∈ writes, write.plan.Sound engine.tables := by
  intro write member
  rcases of_mem_planBatchWrites ok member with none | ⟨request, asked, planned⟩
  · cases none
  · obtain ⟨given, listed⟩ := ordered request asked
    exact planBatchWrite_sound given listed planned

theorem mem_knownTables {α : Type} {tables : Dict String α} {entry : Table × α}
    (named : Named engine.tables) (known : entry ∈ engine.knownTables tables) :
    engine.tables.get? entry.1.name = some entry.1 ∧ (entry.1.name, entry.2) ∈ tables := by
  obtain ⟨⟨name, content⟩, member, kept⟩ := List.mem_filterMap.mp known
  obtain ⟨table, found, rfl⟩ := Option.map_eq_some_iff.mp kept
  have same := named name table found
  simp only [same]
  exact ⟨found, member⟩

def batchedWrites (engine : Engine) (request : BatchWriteRequest) : List (Table × BatchWrite) :=
  writesOf (engine.knownTables request.tables)

theorem ordered_batchedWrites (named : Named engine.tables) {request : BatchWriteRequest}
    (ordered : (Request.batchWrite request).Ordered) :
    ∀ write ∈ engine.batchedWrites request,
      write.2.Ordered ∧ engine.tables.get? write.1.name = some write.1 := by
  intro asked member
  obtain ⟨entry, known, listed⟩ := List.mem_flatMap.mp member
  obtain ⟨write, given, rfl⟩ := List.mem_map.mp listed
  obtain ⟨found, there⟩ := mem_knownTables named known
  exact ⟨ordered _ there write given, found⟩

theorem ordered_writesOf (named : Named engine.tables) {request : BatchWriteRequest}
    (ordered : (Request.batchWrite request).Ordered) {order : List (Table × List BatchWrite)}
    (perm : order.Perm (engine.knownTables request.tables)) :
    ∀ write ∈ writesOf order,
      write.2.Ordered ∧ engine.tables.get? write.1.name = some write.1 :=
  fun write member =>
    ordered_batchedWrites named ordered write ((perm.flatMap_right _).mem_iff.mp member)

end Engine

/-! Properties of the store that requests keep. -/

namespace Action

variable {α β : Type} {Holds : Store → Prop}

def Preserves (Holds : Store → Prop) (action : Action α) : Prop :=
  ∀ session, Holds session.store → Holds (action.exec session).2.store

theorem Keeps.preserves {action : Action α} (keeps : action.Keeps) : action.Preserves Holds := by
  intro session holds
  rw [keeps session]
  exact holds

theorem Preserves.bind {action : Action α} {next : α → Action β} (first : action.Preserves Holds)
    (second : ∀ value session middle, action.exec session = (.ok value, middle) →
      (next value).Preserves Holds) : (action >>= next).Preserves Holds := by
  intro session holds
  have here := first session holds
  cases ran : action.exec session with
  | mk outcome middle =>
      rw [ran] at here
      cases outcome with
      | ok value =>
          rw [exec_bind_ok ran]
          exact second value session middle ran middle here
      | error failure =>
          rw [exec_bind_error ran]
          exact here

end Action

namespace Engine

open Action

section Preservation

variable (engine : Engine) (Holds : Store → Prop)

/-- Carrying out the plan keeps a property of the open transaction's rows, unless the request as a
whole fails. -/
def Sustains (plan : WritePlan) : Prop :=
  ∀ session outcome after, Holds session.transaction.rows →
    (engine.execute plan).exec session = (outcome, after) →
      (∃ failure, outcome = .error failure ∧ failure.MayPass) ∨ Holds after.transaction.rows

variable {engine Holds}

theorem sustains_of_effect (quiet : ∀ hook ∈ engine.hooks, hook.Quiet) {plan : WritePlan}
    (prepared : plan.Prepared)
    (effect : ∀ rows stored effect, Holds rows → rows.item? plan.space plan.key = some stored →
      engine.effect plan stored = .ok effect → Holds (rows.after effect.writes)) :
    engine.Sustains Holds plan := by
  intro session outcome after holds ran
  have passing : ∀ fragile, (engine.execute plan).Breaks fragile session →
      ∃ failure, outcome = .error failure ∧ failure.MayPass := by
    rintro _ ⟨_, failure, other, failed, passes⟩
    rw [ran] at failed
    cases failed
    exact ⟨failure, rfl, passes⟩
  rcases engine.execute_meets quiet prepared session with broken | ⟨stored, read, meets⟩
  · exact Or.inl (passing _ broken)
  · rcases meets with broken | met
    · exact Or.inl (passing _ broken)
    · refine Or.inr ?_
      split at met
      · rename_i found told
        obtain ⟨last, done, rows, _⟩ := met
        rw [ran] at done
        cases done
        rw [rows]
        exact effect _ stored found holds read told
      · rw [ran] at met
        cases met
        exact holds

theorem executeAlone_preserves {plan : WritePlan} (sustains : engine.Sustains Holds plan) :
    (engine.executeAlone plan).Preserves Holds := by
  intro session holds
  cases ran : (engine.executeAlone plan).exec session with
  | mk outcome after =>
      cases outcome with
      | error failure =>
          rw [engine.atomic_executeAlone plan session failure after ran]
          exact holds
      | ok outcome =>
          obtain ⟨executed, done, _, _, committed⟩ := engine.executeAlone_ok ran
          have written : Holds executed.transaction.rows := by
            rcases sustains _ _ _ holds done with ⟨failure, impossible, _⟩ | written
            · cases impossible
            · exact written
          cases outcome with
          | conditionFailed item =>
              rw [committed]
              exact holds
          | applied old new =>
              rw [committed]
              exact written
          | checked =>
              rw [committed]
              exact written

theorem writeAlone_preserves {plan : WritePlan} (sustains : engine.Sustains Holds plan) :
    (engine.writeAlone plan).Preserves Holds := by
  refine keeps_clearLedger.preserves.bind fun _ _ _ _ =>
    (executeAlone_preserves sustains).bind fun outcome _ _ _ => ?_
  cases outcome with
  | applied old new => exact (Still.pure _).keeps.preserves
  | checked => exact (Still.pure _).keeps.preserves
  | conditionFailed item => exact (Still.throw _).keeps.preserves

theorem writeEach_preserves : ∀ {writes : List PlannedWrite},
    (∀ write ∈ writes, engine.Sustains Holds write.plan) → (engine.writeEach writes).Preserves Holds
  | [], _ => (Still.pure _).keeps.preserves
  | write :: rest, sustains => by
      have later := writeEach_preserves fun other member =>
        sustains other (List.mem_cons_of_mem _ member)
      have alone := executeAlone_preserves (sustains write List.mem_cons_self)
      have attempted : (attempt (engine.executeAlone write.plan)).Preserves Holds := alone
      refine attempted.bind fun outcome _ _ _ => ?_
      cases outcome with
      | ok outcome => exact later
      | error failure =>
          by_cases passes : failure.code.isRetryable = true
          · simp only [passes, if_true]
            exact later.bind fun _ _ _ _ => (Still.pure _).keeps.preserves
          · simp only [passes, Bool.false_eq_true, if_false]
            exact (Still.throw _).keeps.preserves

theorem perform_holds {plan : WritePlan} (sustains : engine.Sustains Holds plan)
    {session after : Session} {reason : CancellationReason}
    (holds : Holds session.transaction.rows)
    (ok : (engine.perform plan).exec session = (.ok reason, after)) :
    Holds after.transaction.rows := by
  cases ran : (engine.execute plan).exec session with
  | mk outcome middle =>
      rw [perform, exec_attempt_bind ran, still_reasonOf] at ok
      have given := congrArg Prod.fst ok
      have same : middle = after := congrArg Prod.snd ok
      rcases sustains session outcome middle holds ran with ⟨failure, failed, passes⟩ | kept
      · have internal : failure.code = .internalServerError := eq_of_beq passes
        simp [failed, reasonOf, internal] at given
      · rw [← same]
        exact kept

/-- A batch that succeeds has carried out its writes in turn, and hands back those that are left. -/
theorem batchWriteIn_ok {order : List (Table × List BatchWrite)} {request : BatchWriteRequest}
    {response : BatchWriteResponse} {session after : Session}
    (ok : (engine.batchWriteIn order request).exec session = (.ok response, after)) :
    ∃ writes left, (engine.planBatchWrites [] (writesOf order)).result = .ok writes ∧
      (engine.writeEach writes).exec { session with ledger := [] } = (.ok left, after) ∧
      response.unprocessed = handBack (engine.unknownTables request.tables) left ∧
      response.consumed = after.ledger.consumedAll request.capacity := by
  obtain ⟨_, _, ok⟩ := (Still.require _ _).of_exec_bind_ok ok
  obtain ⟨_, _, ok⟩ := (Still.require _ _).of_exec_bind_ok ok
  obtain ⟨writes, planned, ok⟩ := (engine.still_planBatchWrites _ _).of_exec_bind_ok ok
  obtain ⟨_, cleared, clearing, ok⟩ := of_exec_bind_ok ok
  cases clearing
  obtain ⟨left, written, writing, ok⟩ := of_exec_bind_ok ok
  cases ok
  exact ⟨writes, left, planned, writing, rfl, rfl⟩

/-- A transaction that succeeds has given every action the reason none, and commits what they
wrote. -/
theorem transactWrite_ok {request : TransactWriteRequest} {response : TransactWriteResponse}
    {session after : Session}
    (ok : (engine.transactWrite request).exec session = (.ok response, after)) :
    ∃ plans reasons performed,
      (engine.planTransactWrites [] request.writes).result = .ok plans ∧
      (plans.mapM engine.perform).exec
        { session with transaction := Transaction.begin session.store, ledger := [] } =
          (.ok reasons, performed) ∧
      (reasons.all fun reason => reason.code == .none) = true ∧
      after.store = performed.transaction.rows ∧ after.journal = performed.journal := by
  obtain ⟨_, _, ok⟩ := (still_checkTransactionSize _).of_exec_bind_ok ok
  obtain ⟨plans, planned, ok⟩ := (engine.still_planTransactWrites _ _).of_exec_bind_ok ok
  obtain ⟨_, cleared, clearing, ok⟩ := of_exec_bind_ok ok
  cases clearing
  obtain ⟨_, opened, beginning, ok⟩ := of_exec_bind_ok ok
  obtain ⟨_, called, calling, beginning⟩ := of_exec_bind_ok beginning
  cases engine.exec_call_ok calling
  cases beginning
  obtain ⟨reasons, performed, performing, ok⟩ := of_exec_bind_ok ok
  refine ⟨plans, reasons, performed, planned, performing, ?_⟩
  split at ok
  · rename_i none
    obtain ⟨_, committed, committing, ok⟩ := of_exec_bind_ok ok
    obtain ⟨_, called, calling, committing⟩ := of_exec_bind_ok committing
    cases engine.exec_call_ok calling
    cases committing
    cases ok
    exact ⟨none, rfl, rfl⟩
  · obtain ⟨_, _, _, thrown⟩ := of_exec_bind_ok ok
    cases thrown

theorem transactWrite_preserves {request : TransactWriteRequest}
    (sustains : ∀ plans, (engine.planTransactWrites [] request.writes).result = .ok plans →
      ∀ plan ∈ plans, engine.Sustains Holds plan) :
    (engine.transactWrite request).Preserves Holds := by
  intro session holds
  cases ran : (engine.transactWrite request).exec session with
  | mk outcome after =>
      cases outcome with
      | error failure =>
          rw [engine.atomic_transactWrite request session failure after ran]
          exact holds
      | ok response =>
          obtain ⟨plans, reasons, performed, planned, performing, _, committed, _⟩ :=
            transactWrite_ok ran
          let Rows (session : Session) := Holds session.transaction.rows
          have rows : Rows performed := by
            refine mapM_invariant ?_ ?_ performing
            · exact fun plan member _ _ _ before done =>
                perform_holds (sustains plans planned plan member) before done
            · exact holds
          rw [committed]
          exact rows

section Requests

variable (named : Named engine.tables)
  (sustains : ∀ plan : WritePlan, plan.Sound engine.tables → engine.Sustains Holds plan)

include named sustains

theorem putItem_preserves {request : PutItemRequest}
    (ordered : (Request.putItem request).Ordered) : (engine.putItem request).Preserves Holds := by
  refine (engine.still_table _).keeps.preserves.bind fun table _ _ found => ?_
  refine (Still.require _ _).keeps.preserves.bind fun _ _ _ _ => ?_
  have still := engine.still_planPut table request.item request.condition request.bindings
    (FailureReturn.wantsOld request.onFailure)
  refine still.keeps.preserves.bind fun plan _ _ planned => ?_
  have listed := table_listed named ((engine.still_table _).result_eq found)
  have sound := planPut_sound (still.result_eq planned) listed ordered.1 ordered.2
  exact (writeAlone_preserves (sustains plan sound)).bind fun _ _ _ _ =>
    ((keeps_consumed _ _).bind fun _ => (Still.pure _).keeps).preserves

theorem deleteItem_preserves {request : DeleteItemRequest}
    (ordered : (Request.deleteItem request).Ordered) :
    (engine.deleteItem request).Preserves Holds := by
  refine (engine.still_table _).keeps.preserves.bind fun table _ _ found => ?_
  refine (Still.require _ _).keeps.preserves.bind fun _ _ _ _ => ?_
  have still := engine.still_planDelete table request.key request.condition request.bindings
    (FailureReturn.wantsOld request.onFailure)
  refine still.keeps.preserves.bind fun plan _ _ planned => ?_
  have listed := table_listed named ((engine.still_table _).result_eq found)
  have sound := planDelete_sound (still.result_eq planned) listed ordered.1 ordered.2
  exact (writeAlone_preserves (sustains plan sound)).bind fun _ _ _ _ =>
    ((keeps_consumed _ _).bind fun _ => (Still.pure _).keeps).preserves

theorem updateItem_preserves {request : UpdateItemRequest}
    (ordered : (Request.updateItem request).Ordered) :
    (engine.updateItem request).Preserves Holds := by
  refine (engine.still_table _).keeps.preserves.bind fun table _ _ found => ?_
  have still := engine.still_planUpdate table request.key request.update request.condition
    request.bindings (FailureReturn.wantsOld request.onFailure)
  refine still.keeps.preserves.bind fun plan _ _ planned => ?_
  have listed := table_listed named ((engine.still_table _).result_eq found)
  have sound := planUpdate_sound (still.result_eq planned) listed ordered.1 ordered.2
  exact (writeAlone_preserves (sustains plan sound)).bind fun _ _ _ _ =>
    ((still_updateAttributes _ _ _ _ _).keeps.bind fun _ =>
      (keeps_consumed _ _).bind fun _ => (Still.pure _).keeps).preserves

theorem batchWrite_preserves {request : BatchWriteRequest}
    (ordered : (Request.batchWrite request).Ordered) :
    (engine.batchWrite request).Preserves Holds := by
  refine (Still.require _ _).keeps.preserves.bind fun _ _ _ _ => ?_
  refine (Still.require _ _).keeps.preserves.bind fun _ _ _ _ => ?_
  refine (engine.still_planBatchWrites _ _).keeps.preserves.bind fun writes _ _ planned => ?_
  have sound := planBatchWrites_sound (ordered_batchedWrites named ordered)
    ((engine.still_planBatchWrites _ _).result_eq planned)
  refine keeps_clearLedger.preserves.bind fun _ _ _ _ => ?_
  exact (writeEach_preserves fun write member => sustains _ (sound write member)).bind
    fun _ _ _ _ => ((keeps_consumedAll _).bind fun _ => (Still.pure _).keeps).preserves

theorem answer_preserves {request : Request} (ordered : request.Ordered) :
    (engine.answer request).Preserves Holds := by
  cases request with
  | getItem request =>
      exact ((engine.keeps_getItem request).bind fun _ => (Still.pure _).keeps).preserves
  | query request =>
      exact ((engine.keeps_query request).bind fun _ => (Still.pure _).keeps).preserves
  | scan request =>
      exact ((engine.keeps_scan request).bind fun _ => (Still.pure _).keeps).preserves
  | batchGet request =>
      exact ((engine.keeps_batchGet request).bind fun _ => (Still.pure _).keeps).preserves
  | transactGet request =>
      exact ((engine.keeps_transactGet request).bind fun _ => (Still.pure _).keeps).preserves
  | putItem request =>
      exact (putItem_preserves named sustains ordered).bind fun _ _ _ _ =>
        (Still.pure _).keeps.preserves
  | deleteItem request =>
      exact (deleteItem_preserves named sustains ordered).bind fun _ _ _ _ =>
        (Still.pure _).keeps.preserves
  | updateItem request =>
      exact (updateItem_preserves named sustains ordered).bind fun _ _ _ _ =>
        (Still.pure _).keeps.preserves
  | batchWrite request =>
      exact (batchWrite_preserves named sustains ordered).bind fun _ _ _ _ =>
        (Still.pure _).keeps.preserves
  | transactWrite request =>
      refine Preserves.bind ?_ fun _ _ _ _ => (Still.pure _).keeps.preserves
      refine transactWrite_preserves fun plans planned plan member => sustains plan ?_
      exact planTransactWrites_sound named ordered planned plan member

end Requests

end Preservation
end Engine

/-- The stores that runs of requests lead to from an empty one. Time, settings, hooks and what the
store refuses may change from request to request. -/
inductive Reachable (tables : Dict String Table) : Store → Prop
  | empty : Reachable tables .empty
  | request {engine : Engine} {request : Request} {session : Session}
      (before : Reachable tables session.store) (same : engine.tables = tables)
      (quiet : ∀ hook ∈ engine.hooks, hook.Quiet) (ordered : request.Ordered) :
      Reachable tables (engine.handle request session).2.store

/-- What holds of no rows and what every effect keeps holds after every run. -/
theorem Reachable.invariant {tables : Dict String Table} {Holds : Store → Prop}
    (named : Named tables) (start : Holds .empty)
    (effect : ∀ (engine : Engine) (plan : WritePlan) rows stored effect, engine.tables = tables →
      plan.Sound tables → Holds rows → rows.item? plan.space plan.key = some stored →
      engine.effect plan stored = .ok effect → Holds (rows.after effect.writes))
    {store : Store} (reachable : Reachable tables store) : Holds store := by
  induction reachable with
  | empty => exact start
  | request before same quiet ordered ih =>
      subst same
      refine Engine.answer_preserves named (fun plan sound => ?_) ordered _ ih
      exact Engine.sustains_of_effect quiet sound.prepared fun rows stored found =>
        effect _ plan rows stored found rfl sound
end ItemStore
