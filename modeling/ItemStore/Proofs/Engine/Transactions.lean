import ItemStore.Proofs.Engine.Independence

/-!
Transactions of writes are carried out together or not at all, and what becomes of each action is
what would become of it alone.
-/

namespace ItemStore

def succeeded : Except Failure WriteOutcome → Bool
  | .ok (.applied _ _) | .ok .checked => true
  | .ok (.conditionFailed _) | .error _ => false

def reasonFor : Except Failure WriteOutcome → CancellationReason
  | .ok (.applied _ _) | .ok .checked => ⟨.none, none, none⟩
  | .ok (.conditionFailed item) =>
      ⟨.conditionalCheckFailed, some Failure.conditionFailedMessage, item⟩
  | .error failure => ⟨.validationError, some failure.report.message, none⟩

theorem reasonFor_code (outcome : Except Failure WriteOutcome) :
    ((reasonFor outcome).code == .none) = succeeded outcome := by
  rcases outcome with failure | ⟨old, new⟩ | _ | item <;> rfl

theorem all_reasonFor_code {α : Type} (outcome : α → Except Failure WriteOutcome)
    (values : List α) :
    values.all ((fun reason => reason.code == .none) ∘ fun value => reasonFor (outcome value)) =
      values.all fun value => succeeded (outcome value) := by
  simp [Function.comp_def, reasonFor_code]

namespace Engine

open Action

def outcomeAlone (engine : Engine) (session : Session) (plan : WritePlan) :
    Except Failure WriteOutcome :=
  ((engine.executeAlone plan).exec session).1

def ledgerAlone (engine : Engine) (session : Session) (plan : WritePlan) : Ledger :=
  ((engine.executeAlone plan).exec { session with ledger := [] }).2.ledger

def seen (engine : Engine) (rows : Store) (plan : WritePlan) : Option Item :=
  engine.visible plan.table (rows.item? plan.space plan.key).join

variable {engine : Engine} {plan : WritePlan} {rows : Store}

theorem effect_error {stored : Option Item} {failure : Failure}
    (refused : engine.effect plan stored = .error failure) : failure.code = .validation := by
  let Own (failure : Failure) : Prop := failure.code = .validation
  have expression : ∀ {α : Type} (outcome : Except ExpressionError α),
      (Action.expression outcome).FailsAs Own := FailsAs.ofExcept fun _ => rfl
  have value : ∀ outcome : Except ValueError Unit, (Action.value outcome).FailsAs Own :=
    FailsAs.ofExcept fun _ => rfl
  have key : ∀ outcome : Except KeyError Unit, (Action.key outcome).FailsAs Own :=
    FailsAs.ofExcept fun _ => rfl
  have held : (conditionHolds plan (engine.visible plan.table stored)).FailsAs Own := by
    rw [conditionHolds]
    split
    · exact FailsAs.pure _
    · exact expression _
  have updated : ∀ update,
      (updatedItem plan update (engine.visible plan.table stored)).FailsAs Own := fun update =>
    (expression _).bind fun _ => (value _).bind fun _ => (key _).bind fun _ => FailsAs.pure _
  rcases bind_error refused with early | ⟨held, _, refused⟩
  · exact held.of_result early
  · cases held with
    | false => cases refused
    | true =>
        simp only [if_true] at refused
        split at refused
        · cases refused
        · cases refused
        · rename_i update _
          rcases bind_error refused with early | ⟨item, _, refused⟩
          · exact (updated update).of_result early
          · split at refused
            · cases refused
            · cases refused
              rfl
        · cases refused

/-- Only what is applied writes, and an item comes with a failed condition if it is asked for. -/
theorem effect_outcome {stored : Option Item} {effect : Effect}
    (told : engine.effect plan stored = .ok effect) :
    match effect.outcome with
    | .applied _ new => effect = engine.replacement plan stored new
    | .checked => effect.writes = []
    | .conditionFailed item => effect.writes = [] ∧
        item = if plan.returnsOld then engine.visible plan.table stored else none := by
  obtain ⟨held, _, told⟩ := bind_ok told
  cases held with
  | false =>
      cases told
      exact ⟨rfl, rfl⟩
  | true =>
      simp only [if_true] at told
      split at told
      · cases told
        rfl
      · cases told
        rfl
      · obtain ⟨item, _, told⟩ := bind_ok told
        split at told
        · cases told
          rfl
        · cases told
      · cases told
        rfl

section Steady

variable {session : Session} (quiet : ∀ hook ∈ engine.hooks, hook.Quiet)
  (steady : ¬engine.Fragile)

include steady

theorem exec_call_steady (call : StoreCall) (space : Option Space) (session : Session) :
    (engine.call call space).exec session = (.ok (), session) := by
  have none : engine.faults = [] := Decidable.byContradiction fun some => steady (Or.inl some)
  rw [Engine.call, none]
  rfl

theorem exec_load_steady (table : Table) (key : RowKey) (session : Session) :
    (engine.load table key).exec session =
      ((session.transaction.rows.item? ⟨table.name, none⟩ key).elim (.error .store) .ok,
        session) :=
  engine.exec_load_called key (exec_call_steady steady _ _ _)

theorem exec_queryRows_steady (space : Space) (query : RangeQuery) (session : Session) :
    (engine.queryRows space query).exec session =
      (.ok (session.transaction.query space query), session) :=
  exec_bind_ok (exec_call_steady steady _ _ _) _

theorem exec_begin_steady (session : Session) : engine.begin.exec session =
    (.ok (), { session with transaction := Transaction.begin session.store }) :=
  exec_bind_ok (exec_call_steady steady _ _ _) _

/-- A request that opens a transaction starts on what is committed, and with no charges. -/
theorem exec_open_steady {α : Type} (next : Action α) (session : Session) :
    (do clearLedger; engine.begin; next : Action α).exec session =
      next.exec { session with transaction := Transaction.begin session.store, ledger := [] } :=
  (exec_bind_ok (exec_clearLedger session) _).trans (exec_bind_ok (exec_begin_steady steady _) _)

theorem exec_commit_steady (session : Session) : engine.commit.exec session =
    (.ok (), { session with transaction := Transaction.begin session.transaction.rows }) :=
  exec_bind_ok (exec_call_steady steady _ _ _) _

theorem exec_rollback_steady (session : Session) : engine.rollback.exec session =
    (.ok (), { session with transaction := Transaction.begin session.store }) :=
  exec_bind_ok (exec_call_steady steady _ _ _) _

include quiet

theorem executeAlone_on (ready : engine.Ready rows plan)
    (same : session.store.item? plan.space plan.key = rows.item? plan.space plan.key) :
    ∃ after, (engine.executeAlone plan).exec session =
        ((engine.effectOn rows plan).map Effect.outcome, after) ∧
      after.store = session.store.after (engine.writesOn rows plan) ∧
      after.ledger = session.ledger ++ engine.chargesOn rows plan := by
  let opened : Session := { session with transaction := Transaction.begin session.store }
  obtain ⟨executed, ran, written, charged⟩ :
      ∃ executed, (engine.execute plan).exec opened =
          ((engine.effectOn rows plan).map Effect.outcome, executed) ∧
        executed.transaction.rows = session.store.after (engine.writesOn rows plan) ∧
        executed.ledger = session.ledger ++ engine.chargesOn rows plan :=
    execute_on quiet steady ready same
  have kept : executed.store = session.store := by
    have keeps := engine.keeps_execute plan opened
    rw [ran] at keeps
    exact keeps
  have started : (engine.executeAlone plan).exec session = _ :=
    exec_bind_ok (exec_begin_steady steady session) _
  cases told : engine.effectOn rows plan with
  | error failure =>
      rw [told] at ran
      refine ⟨executed, started.trans (exec_bind_error ran _), ?_, charged⟩
      rw [kept, writesOn, told]
      rfl
  | ok effect =>
      rw [told] at ran
      have known := effect_outcome told
      have went := started.trans (exec_bind_ok ran _)
      rw [writesOn, told] at written ⊢
      obtain ⟨outcome, writes, charges⟩ := effect
      cases outcome with
      | applied old new =>
          have ended := exec_bind_ok (exec_commit_steady steady executed) fun _ =>
            pure (WriteOutcome.applied old new)
          exact ⟨_, went.trans ended, written, charged⟩
      | checked =>
          have ended := exec_bind_ok (exec_commit_steady steady executed) fun _ =>
            pure WriteOutcome.checked
          exact ⟨_, went.trans ended, written, charged⟩
      | conditionFailed item =>
          -- With nothing written it makes no difference that this is rolled back.
          have ended := exec_bind_ok (exec_rollback_steady steady executed) fun _ =>
            pure (WriteOutcome.conditionFailed item)
          refine ⟨_, went.trans ended, ?_, charged⟩
          have nothing : writes = [] := known.1
          rw [nothing]
          exact kept

theorem outcomeAlone_eq (ready : engine.Ready session.store plan) :
    engine.outcomeAlone session plan =
      (engine.effectOn session.store plan).map Effect.outcome := by
  obtain ⟨after, ran, _⟩ := executeAlone_on quiet steady ready rfl
  rw [outcomeAlone, ran]

theorem outcomeAlone_error (ready : engine.Ready session.store plan) {failure : Failure}
    (failed : engine.outcomeAlone session plan = .error failure) : failure.code = .validation := by
  rw [outcomeAlone_eq quiet steady ready] at failed
  cases told : engine.effectOn session.store plan with
  | error early =>
      rw [told] at failed
      cases failed
      exact effect_error told
  | ok effect =>
      rw [told] at failed
      cases failed

theorem outcomeAlone_conditionFailed (ready : engine.Ready session.store plan)
    {item : Option Item} (failed : engine.outcomeAlone session plan = .ok (.conditionFailed item)) :
    item = if plan.returnsOld then engine.seen session.store plan else none := by
  rw [outcomeAlone_eq quiet steady ready] at failed
  obtain ⟨effect, told, outcome⟩ := map_ok failed
  have known := effect_outcome told
  rw [outcome] at known
  exact known.2

theorem ledgerAlone_eq (ready : engine.Ready session.store plan) :
    engine.ledgerAlone session plan = engine.chargesOn session.store plan := by
  let cleared : Session := { session with ledger := [] }
  obtain ⟨after, ran, _, charged⟩ :
      ∃ after, (engine.executeAlone plan).exec cleared = (_, after) ∧
        _ ∧ after.ledger = [] ++ engine.chargesOn session.store plan :=
    executeAlone_on quiet steady ready rfl
  rw [ledgerAlone, ran, charged, List.nil_append]

theorem perform_on (ready : engine.Ready rows plan)
    (same : session.transaction.rows.item? plan.space plan.key =
      rows.item? plan.space plan.key) :
    ∃ after, (engine.perform plan).exec session =
        (.ok (reasonFor ((engine.effectOn rows plan).map Effect.outcome)), after) ∧
      after.transaction.rows = session.transaction.rows.after (engine.writesOn rows plan) ∧
      after.ledger = session.ledger ++ engine.chargesOn rows plan := by
  obtain ⟨after, ran, written, charged⟩ := execute_on quiet steady ready same
  refine ⟨after, ?_, written, charged⟩
  refine (exec_attempt_bind ran _).trans ?_
  cases told : engine.effectOn rows plan with
  | error failure =>
      have own := effect_error told
      simp [Except.map, reasonOf, reasonFor, own]
  | ok effect =>
      obtain ⟨outcome, writes, charges⟩ := effect
      cases outcome with
      | applied old new => rfl
      | checked => rfl
      | conditionFailed item => rfl

end Steady

/-- Steps for different items, each of which does what the rows tell, do so also in turn. -/
theorem mapM_on {α : Type} {step : WritePlan → Action α} {result : WritePlan → α}
    {view : Session → Store} {plans : List WritePlan}
    (ready : ∀ plan ∈ plans, engine.Ready rows plan) (apart : plans.Pairwise WritePlan.Apart)
    (steps : ∀ plan ∈ plans, ∀ session,
      (view session).item? plan.space plan.key = rows.item? plan.space plan.key →
      ∃ after, (step plan).exec session = (.ok (result plan), after) ∧
        view after = (view session).after (engine.writesOn rows plan) ∧
        after.ledger = session.ledger ++ engine.chargesOn rows plan) :
    ∀ session, (∀ plan ∈ plans, (view session).item? plan.space plan.key =
        rows.item? plan.space plan.key) →
      ∃ after, (plans.mapM step).exec session = (.ok (plans.map result), after) ∧
        view after = (view session).after (plans.flatMap (engine.writesOn rows)) ∧
        after.ledger = session.ledger ++ plans.flatMap (engine.chargesOn rows) := by
  induction plans with
  | nil => exact fun session _ => ⟨session, rfl, rfl, by simp⟩
  | cons plan rest ih =>
      intro session same
      obtain ⟨before, later⟩ := List.pairwise_cons.mp apart
      obtain ⟨middle, first, written, charged⟩ :=
        steps plan List.mem_cons_self session (same plan List.mem_cons_self)
      have restReady := fun other member => ready other (List.mem_cons_of_mem _ member)
      have restSame : ∀ other ∈ rest, (view middle).item? other.space other.key =
          rows.item? other.space other.key := by
        intro other member
        rw [written, item?_after_writesOn (ready plan List.mem_cons_self) (before other member)]
        exact same other (List.mem_cons_of_mem _ member)
      obtain ⟨after, ran, moreWritten, moreCharged⟩ := ih restReady later
        (fun other member => steps other (List.mem_cons_of_mem _ member)) middle restSame
      refine ⟨after, ?_, ?_, ?_⟩
      · rw [List.mapM_cons, exec_bind_ok first, exec_bind_ok ran]
        rfl
      · rw [moreWritten, written, List.flatMap_cons, Store.after_append]
      · rw [moreCharged, charged, List.flatMap_cons, List.append_assoc]

end Engine

/-! Sums of charges. -/

namespace Ledger

/-- The units of each table and of each of its spaces are so many times the sum of those that the
parts come to. -/
structure Multiplies (total : Ledger) (factor : Nat) (parts : List Ledger) : Prop where
  table : ∀ name,
    (total.ofTable name).reads = factor * sumOf (fun part => (part.ofTable name).reads) parts ∧
    (total.ofTable name).writes = factor * sumOf (fun part => (part.ofTable name).writes) parts
  space : ∀ space,
    (total.ofSpace space).reads = factor * sumOf (fun part => (part.ofSpace space).reads) parts ∧
    (total.ofSpace space).writes = factor * sumOf (fun part => (part.ofSpace space).writes) parts

theorem sumOf_append {α : Type} (measure : α → Nat) (first second : List α) :
    sumOf measure (first ++ second) = sumOf measure first + sumOf measure second := by
  induction first with
  | nil => simp [sumOf]
  | cons head rest ih => simp [sumOf, ih, Nat.add_assoc]

theorem sumOf_filter_scale {measure : Charge → Nat} {factor : Nat} (among : Space → Bool)
    (scaled : ∀ charge : Charge, measure { charge with
      reads := charge.reads * factor, writes := charge.writes * factor } =
        factor * measure charge) (parts : List Ledger) :
    sumOf measure ((scale factor parts.flatten).filter fun charge => among charge.space) =
      factor * sumOf (fun part => sumOf measure (part.filter fun charge => among charge.space))
        parts := by
  have one : ∀ ledger : Ledger,
      sumOf measure ((scale factor ledger).filter fun charge => among charge.space) =
        factor * sumOf measure (ledger.filter fun charge => among charge.space) := by
    intro ledger
    induction ledger with
    | nil => rfl
    | cons charge rest ih =>
        rw [scale] at ih
        simp only [scale, List.map_cons, List.filter_cons]
        split
        · rw [sumOf, sumOf, ih, scaled, Nat.mul_add]
        · exact ih
  induction parts with
  | nil => rfl
  | cons part rest ih =>
      rw [one] at ih ⊢
      rw [List.flatten_cons, List.filter_append, sumOf_append, sumOf, Nat.mul_add, Nat.mul_add, ih]

theorem multiplies_scale (factor : Nat) (parts : List Ledger) :
    (scale factor parts.flatten).Multiplies factor parts := by
  have reads : ∀ charge : Charge, charge.reads * factor = factor * charge.reads :=
    fun charge => Nat.mul_comm _ _
  have writes : ∀ charge : Charge, charge.writes * factor = factor * charge.writes :=
    fun charge => Nat.mul_comm _ _
  refine ⟨fun name => ⟨?_, ?_⟩, fun space => ⟨?_, ?_⟩⟩
  · exact sumOf_filter_scale (fun space => space.table == name) reads parts
  · exact sumOf_filter_scale (fun space => space.table == name) writes parts
  · exact sumOf_filter_scale (· == space) reads parts
  · exact sumOf_filter_scale (· == space) writes parts

theorem multiplies_flatten (parts : List Ledger) : Multiplies parts.flatten 1 parts := by
  have same : ∀ ledger : Ledger, ledger.scale 1 = ledger := fun ledger => by simp [scale]
  rw [← same parts.flatten]
  exact multiplies_scale 1 parts

end Ledger

def TransactWrite.wantsOld (request : TransactWrite) : Bool :=
  FailureReturn.wantsOld
    ((request.check.bind ConditionCheck.onFailure).or
      ((request.put.bind TransactPut.onFailure).or
        ((request.delete.bind TransactDelete.onFailure).or
          (request.update.bind TransactUpdate.onFailure))))

namespace Engine

open Action

variable {engine : Engine}

theorem apart_of_unrepeated {planned : List WritePlan} {plan : WritePlan}
    (unrepeated : (!repeats planned plan) = true) : ∀ earlier ∈ planned, earlier.Apart plan := by
  intro earlier member name key
  have repeated : repeats planned plan = true :=
    List.any_eq_true.mpr ⟨earlier, member, by simp [name, key]⟩
  rw [repeated] at unrepeated
  cases unrepeated

theorem planTransactWrites_apart {requests : List TransactWrite} {planned plans : List WritePlan}
    (before : planned.Pairwise WritePlan.Apart)
    (ok : (engine.planTransactWrites planned requests).result = .ok plans) :
    plans.Pairwise WritePlan.Apart := by
  induction requests generalizing planned with
  | nil =>
      cases ok
      exact before
  | cons request rest ih =>
      obtain ⟨plan, _, ok⟩ := (engine.still_planTransactWrite _).of_bind_ok ok
      obtain ⟨_, fresh, ok⟩ := (Still.require _ _).of_bind_ok ok
      refine ih (List.pairwise_append.mpr ⟨before, List.pairwise_singleton _ _, ?_⟩) ok
      intro earlier member last only
      rw [List.mem_singleton.mp only]
      exact apart_of_unrepeated (of_require_ok fresh) earlier member

theorem planTransactWrite_returnsOld {request : TransactWrite} {plan : WritePlan}
    (ok : (engine.planTransactWrite request).result = .ok plan) :
    plan.returnsOld = request.wantsOld := by
  cases planTransactWrite_ok ok with
  | check found planned =>
      obtain ⟨_, _, _, _, _, asked⟩ := planCheck_ok planned
      simp [asked, TransactWrite.wantsOld]
  | put found planned =>
      obtain ⟨_, _, _, _, _, asked, _⟩ := planPut_ok planned
      simp [asked, TransactWrite.wantsOld]
  | delete found planned =>
      obtain ⟨_, _, _, _, _, asked, _⟩ := planDelete_ok planned
      simp [asked, TransactWrite.wantsOld]
  | update found planned =>
      obtain ⟨_, _, _, _, _, asked⟩ := planUpdate_ok planned
      simp [asked, TransactWrite.wantsOld]

theorem planTransactWrites_wantsOld {requests : List TransactWrite}
    {planned plans : List WritePlan}
    (ok : (engine.planTransactWrites planned requests).result = .ok plans) :
    plans.map WritePlan.returnsOld =
      planned.map WritePlan.returnsOld ++ requests.map TransactWrite.wantsOld := by
  obtain ⟨more, rfl, fits⟩ := planTransactWrites_fits ok
  rw [List.map_append]
  congr 1
  clear ok
  induction fits with
  | nil => rfl
  | cons here _ ih => rw [List.map_cons, List.map_cons, planTransactWrite_returnsOld here, ih]

def executeInTurn (engine : Engine) (plans : List WritePlan) :
    Action (List (Except Failure WriteOutcome)) :=
  plans.mapM fun plan => attempt (engine.executeAlone plan)

/-- How a transaction ends: as its plans would end if each were carried out alone. -/
structure EndsAsAlone (engine : Engine) (session : Session) (request : TransactWriteRequest)
    (plans : List WritePlan) : Prop where
  together : (∀ plan ∈ plans, succeeded (engine.outcomeAlone session plan) = true) →
    ∃ response after, (engine.transactWrite request).exec session = (.ok response, after) ∧
      (∀ order, plans.Perm order → ∃ inTurn, (engine.executeInTurn order).exec session =
        (.ok (order.map (engine.outcomeAlone session)), inTurn) ∧ inTurn.store = after.store) ∧
      let parts := plans.map (engine.ledgerAlone session)
      let total := Ledger.scale 2 parts.flatten
      total.Multiplies 2 parts ∧ response.consumed = total.consumedAll request.capacity
  cancelled : (∃ plan ∈ plans, succeeded (engine.outcomeAlone session plan) = false) →
    ∃ after, (engine.transactWrite request).exec session =
        (.error (.cancelled (plans.map fun plan => reasonFor (engine.outcomeAlone session plan))),
          after) ∧
      after.store = session.store
  own : ∀ plan ∈ plans, ∀ failure, engine.outcomeAlone session plan = .error failure →
    failure.code = .validation
  shown : ∀ plan ∈ plans, ∀ item, engine.outcomeAlone session plan = .ok (.conditionFailed item) →
    item = if plan.returnsOld then engine.seen session.store plan else none
  asked : plans.map WritePlan.returnsOld = request.writes.map TransactWrite.wantsOld

section InTurn

variable {session : Session} {plans : List WritePlan} (quiet : ∀ hook ∈ engine.hooks, hook.Quiet)
  (steady : ¬engine.Fragile) (ready : ∀ plan ∈ plans, engine.Ready session.store plan)
  (apart : plans.Pairwise WritePlan.Apart)

include quiet steady ready apart

theorem perform_all : ∃ performed,
    (plans.mapM engine.perform).exec
        { session with transaction := Transaction.begin session.store, ledger := [] } =
      (.ok (plans.map fun plan => reasonFor (engine.outcomeAlone session plan)), performed) ∧
    performed.transaction.rows =
      session.store.after (plans.flatMap (engine.writesOn session.store)) ∧
    performed.ledger = (plans.map (engine.ledgerAlone session)).flatten := by
  let opened : Session :=
    { session with transaction := Transaction.begin session.store, ledger := [] }
  obtain ⟨performed, performing, written, charged⟩ :=
    @mapM_on engine session.store _ engine.perform
      (fun plan => reasonFor (engine.outcomeAlone session plan))
      (fun session => session.transaction.rows) plans ready apart
      (fun plan member session same => by
        rw [outcomeAlone_eq quiet steady (ready plan member)]
        exact perform_on quiet steady (ready plan member) same) opened fun _ _ => rfl
  refine ⟨performed, performing, written, ?_⟩
  rw [charged, List.flatMap_def]
  exact congrArg List.flatten (List.map_congr_left fun plan member =>
    (ledgerAlone_eq quiet steady (ready plan member)).symm)

theorem executeInTurn_on : ∃ inTurn, (engine.executeInTurn plans).exec session =
      (.ok (plans.map (engine.outcomeAlone session)), inTurn) ∧
    inTurn.store = session.store.after (plans.flatMap (engine.writesOn session.store)) := by
  obtain ⟨inTurn, ran, stored, _⟩ :=
    @mapM_on engine session.store _ (fun plan => attempt (engine.executeAlone plan))
      (engine.outcomeAlone session) Session.store plans ready apart
      (fun plan member current same => by
        rw [outcomeAlone_eq quiet steady (ready plan member), exec_attempt]
        obtain ⟨after, ran, known⟩ := executeAlone_on quiet steady (ready plan member) same
        exact ⟨after, by rw [ran], known⟩) session fun _ _ => rfl
  exact ⟨inTurn, ran, stored⟩

end InTurn

section Transaction

variable {request : TransactWriteRequest} {plans : List WritePlan} {session : Session}

theorem exec_transactWrite_performed (steady : ¬engine.Fragile)
    (nonempty : request.writes.length ≠ 0) (few : request.writes.length ≤ maxTransactionItems)
    (accepted : (engine.planTransactWrites [] request.writes).result = .ok plans)
    {reasons : List CancellationReason} {performed : Session}
    (performing : (plans.mapM engine.perform).exec
      { session with transaction := Transaction.begin session.store, ledger := [] } =
        (.ok reasons, performed)) :
    (engine.transactWrite request).exec session =
      if reasons.all fun reason => reason.code == .none then
        (.ok ⟨(performed.ledger.scale 2).consumedAll request.capacity⟩,
          { performed with
            transaction := Transaction.begin performed.transaction.rows
            ledger := performed.ledger.scale 2 })
      else (.error (.cancelled reasons),
        { performed with transaction := Transaction.begin performed.store }) := by
  have checked : (checkTransactionSize request.writes.length).exec session = (.ok (), session) := by
    simp only [checkTransactionSize, Action.require, decide_eq_true nonempty, decide_eq_true few]
    rfl
  have planned : (engine.planTransactWrites [] request.writes).exec session =
      (.ok plans, session) := by
    rw [engine.still_planTransactWrites, accepted]
  rw [Engine.transactWrite, exec_bind_ok checked, exec_bind_ok planned, exec_open_steady steady,
    exec_bind_ok performing]
  split
  · rw [exec_bind_ok (exec_commit_steady steady performed)]
    rfl
  · rw [exec_bind_ok (exec_rollback_steady steady performed)]
    rfl

/-- A transaction of writes is carried out as a whole if every action would be carried out alone,
and otherwise changes nothing and tells for each action what would become of it alone. -/
theorem transactWrite_endsAsAlone (quiet : ∀ hook ∈ engine.hooks, hook.Quiet)
    (steady : ¬engine.Fragile) (named : Named engine.tables)
    (distinct : DistinctIndexes engine.tables)
    (reachable : Reachable engine.tables session.store) (readable : session.store.Readable)
    (ordered : (Request.transactWrite request).Ordered)
    (nonempty : request.writes.length ≠ 0) (few : request.writes.length ≤ maxTransactionItems)
    (accepted : (engine.planTransactWrites [] request.writes).result = .ok plans) :
    engine.EndsAsAlone session request plans := by
  obtain ⟨items, mirrors⟩ := reachable.mirrors named distinct
  have ready : ∀ plan ∈ plans, engine.Ready session.store plan := fun plan member =>
    Ready.of_mirrors mirrors readable
      (planTransactWrites_sound named ordered accepted plan member)
  have apart := planTransactWrites_apart List.Pairwise.nil accepted
  obtain ⟨performed, performing, written, charged⟩ :=
    perform_all quiet steady ready apart
  have ended := exec_transactWrite_performed steady nonempty few accepted performing
  rw [List.all_map, all_reasonFor_code] at ended
  refine ⟨?_, ?_, ?_, ?_, ?_⟩
  · intro succeed
    rw [if_pos (List.all_eq_true.mpr succeed)] at ended
    refine ⟨_, _, ended, ?_, Ledger.multiplies_scale 2 _, ?_⟩
    · intro order perm
      obtain ⟨inTurn, ran, stored⟩ := executeInTurn_on quiet steady
        (fun plan member => ready plan (perm.mem_iff.mpr member))
        (apart.perm perm WritePlan.Apart.symm)
      refine ⟨inTurn, ran, ?_⟩
      rw [stored, after_writesOn_perm distinct ready apart perm]
      exact written.symm
    · simp only [charged]
  · rintro ⟨plan, member, failed⟩
    have someFailed : ¬(plans.all fun plan =>
        succeeded (engine.outcomeAlone session plan)) = true := by
      intro all
      rw [List.all_eq_true.mp all plan member] at failed
      cases failed
    rw [if_neg someFailed] at ended
    refine ⟨_, ended, ?_⟩
    have kept := (Keeps.mapM engine.keeps_perform plans)
      { session with transaction := Transaction.begin session.store, ledger := [] }
    rw [performing] at kept
    exact kept
  · exact fun plan member _ failed => outcomeAlone_error quiet steady (ready plan member) failed
  · exact fun plan member _ failed =>
      outcomeAlone_conditionFailed quiet steady (ready plan member) failed
  · exact planTransactWrites_wantsOld accepted

theorem endsAsAlone_after_put :
    let byTag : Index := ⟨"by-tag", "tag", none, .keysOnly⟩
    let notes : Table := ⟨"notes", "id", none, [byTag], none⟩
    let engine : Engine := ⟨[("notes", notes)], Config.default, [], [], 0⟩
    let before : Request := .putItem ⟨"notes", [("id", .string "a"), ("tag", .number "1")], none,
      .none, none, none, none⟩
    let session := Session.ofStore (engine.handle before (Session.ofStore .empty)).2.store
    let put : TransactPut := ⟨"notes", [("id", .string "b"), ("tag", .number "1.0")], none, .none,
      none⟩
    let delete : TransactDelete := ⟨"notes", [("id", .string "a")],
      some "attribute_not_exists(tag)", .none, some .allOld⟩
    let request : TransactWriteRequest :=
      ⟨[⟨none, some put, none, none⟩, ⟨none, none, some delete, none⟩], some .indexes⟩
    ∃ plans, (engine.planTransactWrites [] request.writes).result = .ok plans ∧
      plans.map (fun plan => succeeded (engine.outcomeAlone session plan)) = [true, false] ∧
      engine.EndsAsAlone session request plans := by
  intro byTag notes engine before session put delete request
  have planned : (match (engine.planTransactWrites [] request.writes).result with
      | .ok plans => plans.map (fun plan => succeeded (engine.outcomeAlone session plan))
      | .error _ => []) = [true, false] := by decide +kernel
  split at planned
  · rename_i plans accepted
    refine ⟨plans, accepted, planned, ?_⟩
    refine transactWrite_endsAsAlone (nofun) ?_ (named_of_entries (by decide))
      (distinctIndexes_of_entries (by decide)) (.request .empty rfl (nofun) ?_)
      (Store.readable_of_all (by decide +kernel)) ?_ (by decide) (by decide) accepted
    · rintro (faulty | ⟨_, member, _⟩)
      · exact faulty rfl
      · cases member
    · exact ⟨by decide, by decide⟩
    · intro write member
      have forms : write = ⟨none, some put, none, none⟩ ∨
          write = ⟨none, none, some delete, none⟩ := by
        simpa [request] using member
      rcases forms with rfl | rfl
      · refine ⟨nofun, ?_, nofun, nofun⟩
        rintro _ ⟨⟩
        exact ⟨by decide, by decide⟩
      · refine ⟨nofun, nofun, ?_, nofun⟩
        rintro _ ⟨⟩
        exact ⟨by decide, by decide⟩
  · cases planned

end Transaction

end Engine
end ItemStore
