import ItemStore.Proofs.Engine.PlanKeys
import ItemStore.Proofs.Engine.Refusals

/-!
An engine answers every request as the plain map does, and its rows stay those of the map. The map
is the one that the rows record, so that a plan, which looks only at what it finds under its key,
comes to the same on both.
-/

namespace ItemStore

namespace Action

variable {α β ε : Type}

theorem result_ofExcept (failure : ε → Failure) (outcome : Except ε α) :
    (ofExcept failure outcome).result = outcome.mapError failure := by
  cases outcome <;> rfl

theorem Still.result_bind {action : Action α} (still : action.Still) (next : α → Action β) :
    (action >>= next).result = action.result >>= fun value => (next value).result := by
  rw [result, Engine.exec_bind_still still]
  cases action.result <;> rfl

end Action

/-! Keys of equal values are one key. -/

theorem KeyValue.ofNamed_of_equal (name : String) {value other : AttributeValue}
    (same : value.equal other = true) : ofNamed name value = ofNamed name other := by
  cases value <;> cases other <;> simp only [AttributeValue.equal, Bool.false_eq_true] at same
  case number.number => simp only [ofNamed, AttributeValue.parse_eq_of_equalNumbers same]
  case string.string | binary.binary => rw [eq_of_beq same]
  all_goals rfl

namespace Table

variable {key other : Item}

end Table

namespace Engine

open Action

section Outcomes

variable {engine : Engine} {plan : WritePlan}

theorem visible_eq (shown : engine.HidesNothing) {table : Table}
    (listed : engine.tables.get? table.name = some table) (stored : Option Item) :
    engine.visible table stored = stored := by
  have fresh : ∀ item, engine.isExpired table item = false := by
    intro item
    rw [isExpired]
    rcases shown with off | untimed
    · rw [off, Bool.false_and]
    · rw [untimed _ _ listed, Option.bind_none, Bool.and_false]
  cases stored <;> simp [visible, fresh]

theorem result_conditionHolds (plan : WritePlan) (bound : Option Item) :
    (conditionHolds plan bound).result = (plan.holdsOn bound).mapError .expression := by
  rw [conditionHolds, WritePlan.holdsOn]
  cases plan.condition with
  | none => rfl
  | some condition => exact result_ofExcept _ _

theorem updatedOn_eq (plan : WritePlan) (update : Update) (bound : Option Item) :
    plan.updatedOn update bound = ((updatedItem plan update bound).result >>= fun item =>
      if item.size ≤ maxItemSize then .ok item else .error (.request .itemTooLarge)) := by
  rw [updatedItem, (Still.expression _).result_bind, bind_assoc, WritePlan.updatedOn, expression,
    result_ofExcept]
  refine bind_congr fun item => ?_
  rw [(Still.value _).result_bind, bind_assoc, value, result_ofExcept]
  refine bind_congr fun _ => ?_
  rw [(Still.key _).result_bind, bind_assoc, key, result_ofExcept]
  rfl

/-- The outcome of a plan is told by what requests see of the item under its key. -/
theorem effect_outcomeOn (plan : WritePlan) (stored : Option Item) :
    (engine.effect plan stored).map Effect.outcome =
      plan.outcomeOn (engine.visible plan.table stored) := by
  rw [effect, WritePlan.outcomeOn, result_conditionHolds]
  cases (plan.holdsOn (engine.visible plan.table stored)).mapError Failure.expression with
  | error failure => rfl
  | ok held =>
      cases held with
      | false => rfl
      | true =>
          cases plan.action with
          | check => rfl
          | put item => rfl
          | update update =>
              simp only [updatedOn_eq]
              cases (updatedItem plan update (engine.visible plan.table stored)).result with
              | error failure => rfl
              | ok item =>
                  by_cases sized : item.size ≤ maxItemSize
                  · simp [bind, Except.bind, pure, Except.pure, Except.map, sized, replacement]
                  · simp [bind, Except.bind, Except.map, sized, throw, throwThe,
                      MonadExceptOf.throw]
          | delete => rfl

theorem effect_eq (shown : engine.HidesNothing)
    (listed : engine.tables.get? plan.table.name = some plan.table) (bound : Option Item) :
    (engine.effect plan bound).map Effect.outcome = plan.outcomeOn bound := by
  rw [effect_outcomeOn, visible_eq shown listed]

end Outcomes

/-! The rows after a plan are those of the map after it. -/

section Rows

variable {engine : Engine} {plan : WritePlan} {rows : Store} {map : PlainMap}

theorem item?_of_ready (records : Records engine.tables rows map)
    (ready : engine.Ready rows plan) :
    rows.item? plan.space plan.key = some (map.bound plan) := by
  rw [ready.read, PlainMap.bound, records.item?_eq ready.sound.listed ready.read]

theorem effectOn_eq (records : Records engine.tables rows map) (ready : engine.Ready rows plan) :
    engine.effectOn rows plan = engine.effect plan (map.bound plan) := by
  rw [effectOn, item?_of_ready records ready]
  rfl

theorem outcome_effectOn (shown : engine.HidesNothing)
    (records : Records engine.tables rows map) (ready : engine.Ready rows plan) :
    (engine.effectOn rows plan).map Effect.outcome = map.outcome plan := by
  rw [effectOn_eq records ready, effect_eq shown ready.sound.listed]
  rfl

theorem accepted_of_applied {tables : Dict String Table} (sound : plan.Sound tables)
    {stored old new : Option Item}
    (before : ∀ item, stored = some item → item.Ordered ∧ plan.table.rowKey item = .ok plan.key)
    {effect : Effect} (told : engine.effect plan stored = .ok effect)
    (applied : effect.outcome = .applied old new) :
    ∀ item, new = some item → plan.table.Accepts plan.key item := by
  have known := effect_outcome told
  rw [applied] at known
  rcases effect_cases sound before told with nothing | ⟨other, rfl, accepted⟩
  · rintro item rfl
    rw [known] at nothing
    cases stored <;> simp [replacement, baseWrites] at nothing
  · cases applied
    exact accepted

def settled (map : PlainMap) (plan : WritePlan) (outcome : Except Failure WriteOutcome) :
    PlainMap :=
  match outcome with
  | .ok (.applied _ new) => itemsAfter map plan new
  | .ok .checked | .ok (.conditionFailed _) | .error _ => map

theorem holds_after_plan {Holds : Store → PlainMap → Prop} (holds : Holds rows map)
    (ready : engine.Ready rows plan)
    (bound : rows.item? plan.space plan.key = some (map.bound plan))
    (replaces : ∀ new, (∀ item, new = some item → plan.table.Accepts plan.key item) →
      Holds (rows.after (engine.replacement plan (map.bound plan) new).writes)
        (itemsAfter map plan new)) :
    Holds (rows.after (engine.writesOn rows plan))
      (settled map plan ((engine.effectOn rows plan).map Effect.outcome)) := by
  have found : engine.effectOn rows plan = engine.effect plan (map.bound plan) := by
    rw [effectOn, bound]
    rfl
  rw [writesOn, found]
  cases told : engine.effect plan (map.bound plan) with
  | error failure => exact holds
  | ok effect =>
      have known := effect_outcome told
      have before : ∀ item, map.bound plan = some item →
          item.Ordered ∧ plan.table.rowKey item = .ok plan.key := by
        intro item there
        refine ready.before item ?_
        rw [bound, there]
        rfl
      cases became : effect.outcome with
      | applied old new =>
          rw [became] at known
          have accepted := accepted_of_applied ready.sound before told became
          simp only [Except.map, became, settled]
          rw [known]
          exact replaces new accepted
      | checked =>
          rw [became] at known
          simp only [Except.map, became, known]
          exact holds
      | conditionFailed item =>
          rw [became] at known
          simp only [Except.map, became, known.1]
          exact holds

theorem records_after_plan (shown : engine.HidesNothing)
    (records : Records engine.tables rows map) (ready : engine.Ready rows plan) :
    Records engine.tables (rows.after (engine.writesOn rows plan)) (map.after plan) := by
  have kept := holds_after_plan records ready (item?_of_ready records ready) fun _ accepted =>
    replacement_records records ready.sound.listed accepted
  rwa [outcome_effectOn shown records ready] at kept

variable {current : Store}

theorem Ready.of_same (ready : engine.Ready rows plan)
    (same : current.item? plan.space plan.key = rows.item? plan.space plan.key) :
    engine.Ready current plan := by
  refine ⟨ready.sound, ?_, ?_⟩ <;> rw [same]
  · exact ready.readable
  · exact ready.keyed

theorem writesOn_of_same
    (same : current.item? plan.space plan.key = rows.item? plan.space plan.key) :
    engine.writesOn current plan = engine.writesOn rows plan := by
  rw [writesOn, writesOn, effectOn, effectOn, same]

/-- Plans for different items find what was there before any of them. -/
theorem records_after_plans (shown : engine.HidesNothing) {plans : List WritePlan}
    (ready : ∀ plan ∈ plans, engine.Ready rows plan) (apart : plans.Pairwise WritePlan.Apart)
    (same : ∀ plan ∈ plans,
      current.item? plan.space plan.key = rows.item? plan.space plan.key)
    (records : Records engine.tables current map) :
    Records engine.tables (current.after (plans.flatMap (engine.writesOn rows)))
      (map.afterAll plans) := by
  induction plans generalizing current map with
  | nil => exact records
  | cons plan rest ih =>
      obtain ⟨before, later⟩ := List.pairwise_cons.mp apart
      have here := ready plan List.mem_cons_self
      have sameHere := same plan List.mem_cons_self
      rw [List.flatMap_cons, Store.after_append, PlainMap.afterAll, List.foldl_cons]
      refine ih (fun other member => ready other (List.mem_cons_of_mem _ member)) later ?_ ?_
      · intro other member
        rw [item?_after_writesOn here (before other member)]
        exact same other (List.mem_cons_of_mem _ member)
      · rw [← writesOn_of_same sameHere]
        exact records_after_plan shown records (here.of_same sameHere)

end Rows

theorem effectOn_of_unconditional {engine : Engine} {rows : Store} {plan : WritePlan}
    (unconditional : plan.Unconditional) : ∃ new, engine.effectOn rows plan =
      .ok (engine.replacement plan (rows.item? plan.space plan.key).join new) := by
  rw [effectOn, effect, conditionHolds, unconditional.condition]
  rcases unconditional.action with delete | ⟨item, put⟩
  · rw [delete]
    exact ⟨_, rfl⟩
  · rw [put]
    exact ⟨_, rfl⟩

section Several

variable {engine : Engine} {rows : Store} (quiet : ∀ hook ∈ engine.hooks, hook.Quiet)
  (steady : ¬engine.Fragile)

include quiet steady

/-- A batch of puts and deletes is carried out to its end and leaves nothing over. -/
theorem writeEach_on {writes : List PlannedWrite}
    (ready : ∀ write ∈ writes, engine.Ready rows write.plan)
    (unconditional : ∀ write ∈ writes, write.plan.Unconditional)
    (apart : (writes.map PlannedWrite.plan).Pairwise WritePlan.Apart) :
    ∀ session : Session, (∀ write ∈ writes,
        session.store.item? write.plan.space write.plan.key =
          rows.item? write.plan.space write.plan.key) →
      ∃ after, (engine.writeEach writes).exec session = (.ok [], after) ∧ after.store =
        session.store.after ((writes.map PlannedWrite.plan).flatMap (engine.writesOn rows)) := by
  induction writes with
  | nil => exact fun session _ => ⟨session, rfl, (Store.after_nil _).symm⟩
  | cons write rest ih =>
      intro session same
      obtain ⟨before, later⟩ := List.pairwise_cons.mp apart
      have here := ready write List.mem_cons_self
      obtain ⟨middle, ran, written, _⟩ :=
        executeAlone_on quiet steady here (same write List.mem_cons_self)
      obtain ⟨new, told⟩ :=
        @effectOn_of_unconditional engine rows _ (unconditional write List.mem_cons_self)
      rw [told] at ran
      -- The writes are for different items, so that each finds what was there before the batch.
      have untouched : ∀ other ∈ rest,
          middle.store.item? other.plan.space other.plan.key =
            rows.item? other.plan.space other.plan.key := by
        intro other member
        have otherApart := before other.plan (List.mem_map_of_mem member)
        rw [written, item?_after_writesOn here otherApart]
        exact same other (List.mem_cons_of_mem _ member)
      obtain ⟨after, done, more⟩ := ih
        (fun other member => ready other (List.mem_cons_of_mem _ member))
        (fun other member => unconditional other (List.mem_cons_of_mem _ member)) later middle
        untouched
      refine ⟨after, (exec_attempt_bind ran _).trans done, ?_⟩
      rw [more, written, List.map_cons, List.flatMap_cons, Store.after_append]

end Several

section Requests

variable {engine : Engine} {map : PlainMap} {session : Session}
  (quiet : ∀ hook ∈ engine.hooks, hook.Quiet) (steady : ¬engine.Fragile)
  (shown : engine.HidesNothing) (named : Named engine.tables) (readable : session.store.Readable)
  (records : Records engine.tables session.store map)

/-- The action answers as what it has planned does on the map, and leaves the rows of the map after
that. -/
def Simulates {α β γ : Type} (engine : Engine) (map : PlainMap) (session : Session)
    (action : Action α) (view : α → β) (planned : Except Failure γ) (answer : γ → Except Failure β)
    (after : γ → PlainMap) : Prop :=
  (action.exec session).1.map view = planned >>= answer ∧
    Records engine.tables (action.exec session).2.store (map.afterPlanned planned after)

section Planning

variable {α β γ δ : Type} {view : α → β} {answer : γ → Except Failure β} {after : γ → PlainMap}

include records

theorem Simulates.still_bind {first : Action δ} (still : first.Still) {next : δ → Action α}
    {plan : δ → Except Failure γ}
    (later : ∀ value, first.result = .ok value →
      engine.Simulates map session (next value) view (plan value) answer after) :
    engine.Simulates map session (first >>= next) view (first.result >>= plan) answer after := by
  rw [Simulates, exec_bind_still still]
  cases planned : first.result with
  | error failure => exact ⟨rfl, records⟩
  | ok value => exact later value planned

theorem Simulates.planned {first : Action γ} (still : first.Still) {next : γ → Action α}
    (later : ∀ plan, first.result = .ok plan →
      engine.Simulates map session (next plan) view (.ok plan) answer after) :
    engine.Simulates map session (first >>= next) view first.result answer after := by
  have whole := Simulates.still_bind records still later
  rwa [show (first.result >>= fun plan => .ok plan) = first.result from bind_pure _] at whole

end Planning

include quiet steady shown records

theorem writeAlone_on {plan : WritePlan} (ready : engine.Ready session.store plan) :
    ∃ after, (engine.writeAlone plan).exec session = (map.images plan, after) ∧
      Records engine.tables after.store (map.after plan) := by
  let cleared : Session := { session with ledger := [] }
  obtain ⟨after, ran, written, _⟩ :
      ∃ after, (engine.executeAlone plan).exec cleared =
          ((engine.effectOn session.store plan).map Effect.outcome, after) ∧
        after.store = session.store.after (engine.writesOn session.store plan) ∧ _ :=
    executeAlone_on quiet steady ready rfl
  have started : (engine.writeAlone plan).exec session = _ :=
    exec_bind_ok (show clearLedger.exec session = (.ok ⟨⟩, cleared) from rfl) _
  refine ⟨after, started.trans ?_, ?_⟩
  · rw [outcome_effectOn shown records ready] at ran
    rw [exec_bind, ran, PlainMap.images]
    rcases map.outcome plan with failure | ⟨old, new⟩ | _ | item <;> rfl
  · rw [written]
    exact records_after_plan shown records ready

theorem Simulates.write {α β : Type} {plan : WritePlan} (ready : engine.Ready session.store plan)
    {finish : Option Item × Option Item → Action α} {view : α → β}
    {answer : WritePlan → Option Item × Option Item → Except Failure β}
    (finishes : ∀ images session, ((finish images).exec session).1.map view = answer plan images ∧
      ((finish images).exec session).2.store = session.store) :
    engine.Simulates map session (engine.writeAlone plan >>= finish) view (.ok plan)
      (fun plan => map.images plan >>= answer plan) map.after := by
  obtain ⟨after, ran, written⟩ := writeAlone_on quiet steady shown records ready
  rw [Simulates, exec_bind, ran]
  show _ = (map.images plan >>= answer plan) ∧ Records engine.tables _ (map.after plan)
  cases map.images plan with
  | error failure => exact ⟨rfl, written⟩
  | ok images =>
      obtain ⟨answered, kept⟩ := finishes images after
      refine ⟨answered, ?_⟩
      rw [kept]
      exact written

include named readable

theorem putItem_answers {request : PutItemRequest} (ordered : (Request.putItem request).Ordered) :
    engine.Simulates map session (engine.putItem request) WriteResponse.attributes
      (engine.planOfPut request)
      (fun plan => do
        let (old, _) ← map.images plan
        return old.filter fun _ => request.returnValues.getD .none == .allOld) map.after := by
  refine Simulates.still_bind records (engine.still_table _) fun table found => ?_
  refine Simulates.still_bind records (Still.require _ _) fun _ _ => ?_
  refine Simulates.planned records (engine.still_planPut _ _ _ _ _) fun plan planned => ?_
  have sound := planPut_sound planned (table_listed named found) ordered.1 ordered.2
  exact Simulates.write quiet steady shown records (Ready.of_records records readable sound)
    fun _ _ => ⟨rfl, rfl⟩

theorem deleteItem_answers {request : DeleteItemRequest}
    (ordered : (Request.deleteItem request).Ordered) :
    engine.Simulates map session (engine.deleteItem request) WriteResponse.attributes
      (engine.planOfDelete request)
      (fun plan => do
        let (old, _) ← map.images plan
        return old.filter fun _ => request.returnValues.getD .none == .allOld) map.after := by
  refine Simulates.still_bind records (engine.still_table _) fun table found => ?_
  refine Simulates.still_bind records (Still.require _ _) fun _ _ => ?_
  refine Simulates.planned records (engine.still_planDelete _ _ _ _ _) fun plan planned => ?_
  have sound := planDelete_sound planned (table_listed named found) ordered.1 ordered.2
  exact Simulates.write quiet steady shown records (Ready.of_records records readable sound)
    fun _ _ => ⟨rfl, rfl⟩

theorem updateItem_answers {request : UpdateItemRequest}
    (ordered : (Request.updateItem request).Ordered) :
    engine.Simulates map session (engine.updateItem request) WriteResponse.attributes
      (engine.planOfUpdate request)
      (fun plan => do
        let (old, new) ← map.images plan
        (updateAttributes (request.returnValues.getD .none) plan.updateOf plan.bindings old
          new).result) map.after := by
  refine Simulates.still_bind records (engine.still_table _) fun table found => ?_
  refine Simulates.planned records (engine.still_planUpdate _ _ _ _ _ _) fun plan planned => ?_
  have sound := planUpdate_sound planned (table_listed named found) ordered.1 ordered.2
  refine Simulates.write quiet steady shown records (Ready.of_records records readable sound) ?_
  rintro ⟨old, new⟩ session
  rw [exec_bind_still (still_updateAttributes _ _ _ _ _)]
  dsimp only
  cases (updateAttributes (request.returnValues.getD .none) plan.updateOf plan.bindings old
    new).result <;> exact ⟨rfl, rfl⟩

theorem batchWrite_answers {request : BatchWriteRequest}
    (ordered : (Request.batchWrite request).Ordered) :
    engine.Simulates map session (engine.batchWrite request) BatchWriteResponse.unprocessed
      (engine.plansOfBatch request) (fun _ => return engine.unknownTables request.tables)
      map.afterAll := by
  refine Simulates.still_bind records (Still.require _ _) fun _ _ => ?_
  refine Simulates.still_bind records (Still.require _ _) fun _ _ => ?_
  refine Simulates.still_bind records (engine.still_planBatchWrites _ _) fun writes planned => ?_
  have sound : ∀ write ∈ writes, write.plan.Sound engine.tables :=
    planBatchWrites_sound (ordered_batchedWrites named ordered) planned
  have ready : ∀ write ∈ writes, engine.Ready session.store write.plan :=
    fun write member => Ready.of_records records readable (sound write member)
  have unconditional : ∀ write ∈ writes, write.plan.Unconditional :=
    fun write member => (engine.planBatchWrites_ok planned write member).2
  have apart := planBatchWrites_apart planned
  obtain ⟨after, ran, written⟩ := writeEach_on quiet steady ready unconditional apart
    { session with ledger := [] } fun _ _ => rfl
  rw [Simulates, exec_bind_ok (exec_clearLedger session), exec_bind_ok ran]
  refine ⟨rfl, ?_⟩
  have recorded := records_after_plans shown (List.forall_mem_map.mpr ready) apart
    (fun _ _ => rfl) records
  exact written ▸ recorded

theorem transactWrite_answers {request : TransactWriteRequest}
    (ordered : (Request.transactWrite request).Ordered) :
    engine.Simulates map session (engine.transactWrite request) (fun _ => ())
      (engine.plansOfTransaction request)
      (fun plans => if map.allSucceed plans then return ()
        else throw (.cancelled (plans.map fun plan => reasonFor (map.outcome plan))))
      map.afterTogether := by
  refine Simulates.still_bind records (still_checkTransactionSize _) fun _ checked => ?_
  refine Simulates.planned records (engine.still_planTransactWrites _ _) fun plans planned => ?_
  have sound := planTransactWrites_sound named ordered planned
  have ready : ∀ plan ∈ plans, engine.Ready session.store plan :=
    fun plan member => Ready.of_records records readable (sound plan member)
  have apart := planTransactWrites_apart List.Pairwise.nil planned
  have outcomes : ∀ plan ∈ plans, engine.outcomeAlone session plan = map.outcome plan := by
    intro plan member
    rw [outcomeAlone_eq quiet steady (ready plan member),
      outcome_effectOn shown records (ready plan member)]
  obtain ⟨performed, performing, written, _⟩ := perform_all quiet steady ready apart
  have kept : performed.store = session.store := by
    have keeps := Keeps.mapM engine.keeps_perform plans
      { session with transaction := Transaction.begin session.store, ledger := [] }
    rw [performing] at keeps
    exact keeps
  rw [List.map_congr_left fun plan member => congrArg reasonFor (outcomes plan member)]
    at performing
  rw [Simulates, exec_open_steady steady, exec_bind_ok performing, List.all_map,
    all_reasonFor_code]
  show _ = (if map.allSucceed plans then _ else _) ∧
    Records engine.tables _ (if map.allSucceed plans then map.afterAll plans else map)
  -- The engine goes by the reasons that it gives, and these are none where all plans succeed.
  by_cases succeed : map.allSucceed plans = true
  · have all : (plans.all fun plan => succeeded (map.outcome plan)) = true := succeed
    rw [if_pos succeed, if_pos succeed, if_pos all, exec_bind_ok (exec_commit_steady steady _)]
    refine ⟨rfl, ?_⟩
    have recorded := records_after_plans shown ready apart (fun _ _ => rfl) records
    exact written ▸ recorded
  · have some : ¬(plans.all fun plan => succeeded (map.outcome plan)) = true := succeed
    rw [if_neg succeed, if_neg succeed, if_neg some, exec_bind_ok (exec_rollback_steady steady _)]
    exact ⟨rfl, kept ▸ records⟩

end Requests

section Reads

variable {engine : Engine} {map : PlainMap} {session : Session} (steady : ¬engine.Fragile)

include steady

theorem getItem_planned {request : GetItemRequest} {plan : ReadPlan}
    (planned : (engine.planGet request.table request.key request.projection request.names).result =
      .ok plan) :
    ((engine.getItem request).exec session).1.map GetItemResponse.item =
      (session.store.item? ⟨plan.table.name, none⟩ plan.key).elim (.error .store) fun stored =>
        (projectFound plan (engine.visible plan.table stored)).result := by
  let opened : Session :=
    { session with transaction := Transaction.begin session.store, ledger := [] }
  have loaded : (engine.load plan.table plan.key).exec opened =
      ((session.store.item? ⟨plan.table.name, none⟩ plan.key).elim (.error .store) .ok, opened) :=
    exec_load_steady steady plan.table plan.key opened
  rw [getItem, exec_bind_still (engine.still_planGet _ _ _ _), planned]
  dsimp only
  rw [exec_open_steady steady]
  cases read : session.store.item? ⟨plan.table.name, none⟩ plan.key with
  | none =>
      rw [read] at loaded
      have failed : (engine.find plan).exec opened = (.error .store, opened) :=
        exec_bind_error loaded _
      rw [exec_bind_error failed]
      rfl
  | some stored =>
      rw [read] at loaded
      obtain ⟨after, found⟩ : ∃ after,
          (engine.find plan).exec opened = (.ok (engine.visible plan.table stored), after) := by
        rw [find, exec_bind_ok loaded]
        exact ⟨_, rfl⟩
      rw [exec_bind_ok found, exec_bind_ok (exec_rollback_steady steady _),
        exec_bind_still (still_projectFound _ _)]
      show _ = (projectFound plan (engine.visible plan.table stored)).result
      cases (projectFound plan (engine.visible plan.table stored)).result <;> rfl

end Reads

theorem store_bind_pure {α β : Type} (action : Action α) (wrap : α → β) (session : Session) :
    ((action >>= fun value => pure (wrap value)).exec session).2.store =
      (action.exec session).2.store := by
  rw [exec_bind]
  rcases action.exec session with ⟨failure | value, after⟩ <;> rfl

/-- The rows after a request are those of the map after it. -/
theorem records_after_request {engine : Engine} {map : PlainMap} {session : Session}
    (quiet : ∀ hook ∈ engine.hooks, hook.Quiet) (steady : ¬engine.Fragile)
    (shown : engine.HidesNothing) (named : Named engine.tables) (readable : session.store.Readable)
    (records : Records engine.tables session.store map) {request : Request}
    (ordered : request.Ordered) :
    Records engine.tables (engine.handle request session).2.store (map.next engine request) := by
  show Records engine.tables ((engine.answer request).exec session).2.store _
  cases request <;> rw [answer, store_bind_pure]
  case putItem request =>
    exact (putItem_answers quiet steady shown named readable records ordered).2
  case updateItem request =>
    exact (updateItem_answers quiet steady shown named readable records ordered).2
  case deleteItem request =>
    exact (deleteItem_answers quiet steady shown named readable records ordered).2
  case batchWrite request =>
    exact (batchWrite_answers quiet steady shown named readable records ordered).2
  case transactWrite request =>
    exact (transactWrite_answers quiet steady shown named readable records ordered).2
  case getItem request => exact (engine.keeps_getItem request session).symm ▸ records
  case query request => exact (engine.keeps_query request session).symm ▸ records
  case scan request => exact (engine.keeps_scan request session).symm ▸ records
  case batchGet request => exact (engine.keeps_batchGet request session).symm ▸ records
  case transactGet request => exact (engine.keeps_transactGet request session).symm ▸ records

end Engine

theorem Tracks.records {tables : Dict String Table} (named : Named tables) {map : PlainMap}
    {store : Store} (tracks : Tracks tables map store) : Records tables store map := by
  induction tracks with
  | empty => exact ⟨fun _ _ _ => rfl, nofun, nofun⟩
  | request before same quiet steady shown readable ordered ih =>
      subst same
      exact Engine.records_after_request quiet steady shown named readable ih ordered

end ItemStore
