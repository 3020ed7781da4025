import ItemStore.Proofs.Engine.Failures
import ItemStore.Proofs.Expression.Updates

/-!
A request that fails changes no row of any space, whatever hooks and store did before the failure.
-/

namespace ItemStore

namespace Action

variable {α β : Type}

def Atomic (action : Action α) : Prop :=
  ∀ session failure after, action.exec session = (.error failure, after) →
    after.store = session.store

def Total (action : Action α) : Prop :=
  ∀ session, ∃ value after, action.exec session = (.ok value, after)

theorem Keeps.atomic {action : Action α} (keeps : action.Keeps) : action.Atomic := by
  intro session failure after failed
  have kept := keeps session
  rw [failed] at kept
  exact kept

theorem Total.atomic {action : Action α} (total : action.Total) : action.Atomic := by
  intro session failure after failed
  obtain ⟨value, other, ok⟩ := total session
  rw [failed] at ok
  cases ok

theorem Keeps.bind_atomic {action : Action α} {next : α → Action β} (keeps : action.Keeps)
    (atomic : ∀ value session middle, action.exec session = (.ok value, middle) →
      (next value).Atomic) : (action >>= next).Atomic := by
  intro session failure after failed
  have kept := keeps session
  rcases of_exec_bind_error failed with first | ⟨value, middle, first, second⟩
  · rw [first] at kept
    exact kept
  · rw [first] at kept
    exact (atomic value session middle first middle failure after second).trans kept

theorem Atomic.bind_total {action : Action α} {next : α → Action β} (atomic : action.Atomic)
    (total : ∀ value session middle, action.exec session = (.ok value, middle) →
      (next value).Total) : (action >>= next).Atomic := by
  intro session failure after failed
  rcases of_exec_bind_error failed with first | ⟨value, middle, first, second⟩
  · exact atomic session failure after first
  · obtain ⟨found, other, ok⟩ := total value session middle first middle
    rw [second] at ok
    cases ok

theorem Total.pure (value : α) : (Pure.pure value : Action α).Total :=
  fun session => ⟨value, session, rfl⟩

theorem Total.bind {action : Action α} {next : α → Action β} (first : action.Total)
    (second : ∀ value, (next value).Total) : (action >>= next).Total := by
  intro session
  obtain ⟨value, middle, ok⟩ := first session
  rw [exec_bind_ok ok]
  exact second value middle

end Action

namespace Engine

open Action

variable (engine : Engine)

theorem atomic_commit : engine.commit.Atomic := by
  refine (engine.still_call _ _).keeps.bind_atomic fun _ _ _ _ => ?_
  exact Total.atomic fun session => ⟨_, _, rfl⟩

theorem total_consumed (detail : Option CapacityDetail) (table : String) :
    (consumed detail table).Total := fun _ => ⟨_, _, rfl⟩

theorem total_consumedAll (detail : Option CapacityDetail) : (consumedAll detail).Total :=
  fun _ => ⟨_, _, rfl⟩

theorem atomic_executeAlone (plan : WritePlan) : (engine.executeAlone plan).Atomic := by
  refine engine.keeps_begin.bind_atomic fun _ _ _ _ => ?_
  refine (engine.keeps_execute plan).bind_atomic fun outcome _ _ _ => ?_
  cases outcome with
  | conditionFailed item => exact (engine.keeps_rollback.bind fun _ => (Still.pure _).keeps).atomic
  | applied old new => exact engine.atomic_commit.bind_total fun _ _ _ _ => Total.pure _
  | checked => exact engine.atomic_commit.bind_total fun _ _ _ _ => Total.pure _

/-- A plan that is carried out alone starts from what is committed, and what it wrote is committed
unless its condition failed. -/
theorem executeAlone_ok {plan : WritePlan} {outcome : WriteOutcome} {session after : Session}
    (ok : (engine.executeAlone plan).exec session = (.ok outcome, after)) :
    ∃ executed,
      (engine.execute plan).exec { session with transaction := Transaction.begin session.store } =
        (.ok outcome, executed) ∧
      after.ledger = executed.ledger ∧ after.journal = executed.journal ∧
      match outcome with
      | .conditionFailed _ => after.store = session.store
      | .applied _ _ | .checked => after.store = executed.transaction.rows := by
  obtain ⟨_, opened, began, ok⟩ := of_exec_bind_ok ok
  obtain ⟨_, called, calling, began⟩ := of_exec_bind_ok began
  cases engine.exec_call_ok calling
  cases began
  obtain ⟨found, executed, ran, ended⟩ := of_exec_bind_ok ok
  have kept := engine.keeps_execute plan { session with
    transaction := Transaction.begin session.store }
  rw [ran] at kept
  cases found with
  | conditionFailed item =>
      obtain ⟨_, closed, closing, returned⟩ := of_exec_bind_ok ended
      obtain ⟨_, called, calling, closing⟩ := of_exec_bind_ok closing
      cases engine.exec_call_ok calling
      cases closing
      cases returned
      exact ⟨executed, ran, rfl, rfl, kept⟩
  | applied old new =>
      obtain ⟨_, closed, closing, returned⟩ := of_exec_bind_ok ended
      obtain ⟨_, called, calling, closing⟩ := of_exec_bind_ok closing
      cases engine.exec_call_ok calling
      cases closing
      cases returned
      exact ⟨executed, ran, rfl, rfl, rfl⟩
  | checked =>
      obtain ⟨_, closed, closing, returned⟩ := of_exec_bind_ok ended
      obtain ⟨_, called, calling, closing⟩ := of_exec_bind_ok closing
      cases engine.exec_call_ok calling
      cases closing
      cases returned
      exact ⟨executed, ran, rfl, rfl, rfl⟩

theorem executeAlone_conditionFailed {plan : WritePlan} {item : Option Item}
    {session after : Session}
    (rejected : (engine.executeAlone plan).exec session = (.ok (.conditionFailed item), after)) :
    after.store = session.store := by
  obtain ⟨_, _, _, _, kept⟩ := engine.executeAlone_ok rejected
  exact kept

theorem atomic_writeAlone (plan : WritePlan) : (engine.writeAlone plan).Atomic := by
  refine keeps_clearLedger.bind_atomic fun _ _ _ _ => ?_
  intro session failure after failed
  rcases of_exec_bind_error failed with alone | ⟨outcome, middle, alone, thrown⟩
  · exact engine.atomic_executeAlone plan session failure after alone
  · cases outcome with
    | conditionFailed item =>
        cases thrown
        exact engine.executeAlone_conditionFailed alone
    | applied old new => cases thrown
    | checked => cases thrown

theorem atomic_putItem (request : PutItemRequest) : (engine.putItem request).Atomic := by
  refine (engine.still_table _).keeps.bind_atomic fun _ _ _ _ => ?_
  refine (Still.require _ _).keeps.bind_atomic fun _ _ _ _ => ?_
  refine (engine.still_planPut _ _ _ _ _).keeps.bind_atomic fun plan _ _ _ => ?_
  exact (engine.atomic_writeAlone plan).bind_total fun _ _ _ _ =>
    (total_consumed _ _).bind fun _ => Total.pure _

theorem atomic_deleteItem (request : DeleteItemRequest) : (engine.deleteItem request).Atomic := by
  refine (engine.still_table _).keeps.bind_atomic fun _ _ _ _ => ?_
  refine (Still.require _ _).keeps.bind_atomic fun _ _ _ _ => ?_
  refine (engine.still_planDelete _ _ _ _ _).keeps.bind_atomic fun plan _ _ _ => ?_
  exact (engine.atomic_writeAlone plan).bind_total fun _ _ _ _ =>
    (total_consumed _ _).bind fun _ => Total.pure _

theorem total_updateAttributes {update : Update} {bindings : Bindings} {names : List String}
    (valid : update.validate bindings names = .ok ()) (returnValues : ReturnValues)
    (old new : Option Item) : (updateAttributes returnValues update bindings old new).Total := by
  obtain ⟨locations, located⟩ := Update.targets_located valid
  have parts : ∀ image, (updatedParts update bindings image).Total := by
    intro image
    cases image with
    | none => exact Total.pure _
    | some item =>
        have picked : projected (some update.targets) bindings item =
            pure (item.project (.ofLocations locations)) := by
          simp only [projected, Projection.apply, located]
          rfl
        simp only [updatedParts, picked]
        exact (Total.pure _).bind fun _ => Total.pure _
  cases returnValues with
  | none => exact Total.pure _
  | allOld => exact Total.pure _
  | allNew => exact Total.pure _
  | updatedOld => exact parts old
  | updatedNew => exact parts new

theorem atomic_updateItem (request : UpdateItemRequest) : (engine.updateItem request).Atomic := by
  refine (engine.still_table _).keeps.bind_atomic fun table _ _ _ => ?_
  have still := engine.still_planUpdate table request.key request.update request.condition
    request.bindings (FailureReturn.wantsOld request.onFailure)
  refine still.keeps.bind_atomic fun plan _ _ planned => ?_
  obtain ⟨prepared, _, ⟨update, action⟩, _⟩ := planUpdate_ok (still.result_eq planned)
  have valid : plan.updateOf.validate plan.bindings plan.table.keyNames = .ok () := by
    rw [WritePlan.updateOf, action]
    exact prepared.update update action
  exact (engine.atomic_writeAlone plan).bind_total fun _ _ _ _ =>
    (total_updateAttributes valid _ _ _).bind fun _ => (total_consumed _ _).bind fun _ =>
      Total.pure _

/-- Planned writes go on to the last, since what fails among them may pass later. -/
theorem total_writeEach : ∀ {writes : List PlannedWrite},
    (∀ write ∈ writes, write.plan.Prepared ∧ write.plan.Unconditional) →
      (engine.writeEach writes).Total
  | [], _ => Total.pure _
  | write :: rest, planned => by
      have later := total_writeEach fun other member =>
        planned other (List.mem_cons_of_mem _ member)
      obtain ⟨prepared, unconditional⟩ := planned write (List.mem_cons_self ..)
      intro session
      cases ran : (engine.executeAlone write.plan).exec session with
      | mk outcome after =>
          rw [writeEach, exec_attempt_bind ran]
          cases outcome with
          | ok outcome => exact later after
          | error failure =>
              have passes : failure.code.isRetryable = true :=
                engine.mayPass_executeAlone prepared unconditional session failure after ran
              simp only [passes, if_true]
              exact (later.bind fun _ => Total.pure _) after

theorem atomic_batchWrite (request : BatchWriteRequest) : (engine.batchWrite request).Atomic := by
  refine (Still.require _ _).keeps.bind_atomic fun _ _ _ _ => ?_
  refine (Still.require _ _).keeps.bind_atomic fun _ _ _ _ => ?_
  refine (engine.still_planBatchWrites _ _).keeps.bind_atomic fun writes _ _ planned =>
    Total.atomic ?_
  have ready := engine.planBatchWrites_ok ((engine.still_planBatchWrites _ _).result_eq planned)
  exact Total.bind (fun _ => ⟨_, _, rfl⟩) fun _ => (engine.total_writeEach ready).bind fun _ =>
    (total_consumedAll _).bind fun _ => Total.pure _

theorem still_reasonOf (outcome : Except Failure WriteOutcome) : (reasonOf outcome).Still := by
  rw [reasonOf.eq_def]
  split
  · exact Still.pure _
  · exact Still.pure _
  · exact Still.pure _
  · exact Still.ite (Still.pure _) (Still.throw _)

theorem keeps_perform (plan : WritePlan) : (engine.perform plan).Keeps :=
  (engine.keeps_execute plan).attempt.bind fun _ => (still_reasonOf _).keeps

theorem atomic_transactWrite (request : TransactWriteRequest) :
    (engine.transactWrite request).Atomic := by
  refine (still_checkTransactionSize _).keeps.bind_atomic fun _ _ _ _ => ?_
  refine (engine.still_planTransactWrites _ _).keeps.bind_atomic fun _ _ _ _ => ?_
  refine keeps_clearLedger.bind_atomic fun _ _ _ _ => engine.keeps_begin.bind_atomic
    fun _ _ _ _ => (Keeps.mapM engine.keeps_perform _).bind_atomic fun reasons _ _ _ => ?_
  split
  · exact engine.atomic_commit.bind_total fun _ _ _ _ => Total.bind (fun _ => ⟨_, _, rfl⟩)
      fun _ => (total_consumedAll _).bind fun _ => Total.pure _
  · exact (engine.keeps_rollback.bind fun _ => (Still.throw _).keeps).atomic

theorem atomic_answer (request : Request) : (engine.answer request).Atomic := by
  cases request with
  | getItem request =>
      exact ((engine.keeps_getItem request).bind fun _ => (Still.pure _).keeps).atomic
  | putItem request => exact (engine.atomic_putItem request).bind_total fun _ _ _ _ => Total.pure _
  | updateItem request =>
      exact (engine.atomic_updateItem request).bind_total fun _ _ _ _ => Total.pure _
  | deleteItem request =>
      exact (engine.atomic_deleteItem request).bind_total fun _ _ _ _ => Total.pure _
  | query request => exact ((engine.keeps_query request).bind fun _ => (Still.pure _).keeps).atomic
  | scan request => exact ((engine.keeps_scan request).bind fun _ => (Still.pure _).keeps).atomic
  | batchGet request =>
      exact ((engine.keeps_batchGet request).bind fun _ => (Still.pure _).keeps).atomic
  | batchWrite request =>
      exact (engine.atomic_batchWrite request).bind_total fun _ _ _ _ => Total.pure _
  | transactGet request =>
      exact ((engine.keeps_transactGet request).bind fun _ => (Still.pure _).keeps).atomic
  | transactWrite request =>
      exact (engine.atomic_transactWrite request).bind_total fun _ _ _ _ => Total.pure _

/-- A request that fails leaves every row of every space as it was. -/
theorem failed_request_keeps_store (request : Request) (session : Session) (failure : Failure)
    (failed : (engine.handle request session).1 = .error failure) :
    (engine.handle request session).2.store = session.store := by
  cases ran : engine.handle request session with
  | mk outcome after =>
      rw [ran] at failed
      cases failed
      exact engine.atomic_answer request session failure after ran

theorem failed_hook_keeps_store :
    let notes : Table := ⟨"notes", "id", none, [], none⟩
    let hook : Hook := fun _ =>
      .put ⟨"log", none⟩ ⟨.string "x", []⟩ "new" fun _ => .fail "full"
    let engine : Engine := ⟨[("notes", notes)], Config.default, [hook], [], 0⟩
    let request : Request :=
      .putItem ⟨"notes", [("id", .string "a")], none, .none, none, none, none⟩
    let before := Session.ofStore (Store.empty.put ⟨"log", none⟩ ⟨.string "x", []⟩ "old")
    (engine.handle request before).1 = .error (.hook "full") ∧
      (engine.handle request before).2.store = before.store := by
  refine ⟨rfl, ?_⟩
  exact failed_request_keeps_store _ _ _ (.hook "full") rfl

end Engine
end ItemStore
