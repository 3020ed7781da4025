import ItemStore.Proofs.Engine.BatchWrites

/-!
What a batch of writes is charged. Its ledger is that of its writes, carried out one by one. A write
that fails leaves there what it was charged before it failed, although its rows are taken back.
-/

namespace ItemStore

/-! Actions that look at the rows, and only add to the notes and the charges. -/

namespace Action

variable {α β : Type} {transaction : Transaction} {charges others : Ledger}

/-- In this transaction the action comes to the same whatever was noted and charged before. It is
charged all of the charges if it succeeds, and otherwise the first of them. -/
def Bills (transaction : Transaction) (charges : Ledger) (action : Action α) : Prop :=
  ∃ outcome later noted part, part <+: charges ∧ ((∃ value, outcome = .ok value) → part = charges) ∧
    ∀ journal ledger, action.exec ⟨transaction, journal, ledger⟩ =
      (outcome, ⟨later, journal ++ noted, ledger ++ part⟩)

theorem Still.bills {action : Action α} (still : action.Still) : action.Bills transaction [] := by
  refine ⟨action.result, transaction, [], [], List.nil_prefix, fun _ => rfl, fun journal ledger => ?_⟩
  rw [still, List.append_nil, List.append_nil]

theorem Bills.bind {action : Action α} {next : α → Action β}
    (first : action.Bills transaction charges)
    (second : ∀ value session after, session.transaction = transaction →
      action.exec session = (.ok value, after) → (next value).Bills after.transaction others) :
    (action >>= next).Bills transaction (charges ++ others) := by
  obtain ⟨outcome, middle, noted, part, within, all, ran⟩ := first
  cases outcome with
  | error failure =>
      exact ⟨.error failure, middle, noted, part, within.trans (List.prefix_append _ _), nofun,
        fun journal ledger => exec_bind_error (ran journal ledger) next⟩
  | ok value =>
      obtain rfl := all ⟨value, rfl⟩
      obtain ⟨last, later, more, rest, within, all, went⟩ := second value _ _ rfl (ran [] [])
      refine ⟨last, later, noted ++ more, part ++ rest, List.prefix_append_right_inj _ |>.mpr within,
        fun ok => by rw [all ok], fun journal ledger => ?_⟩
      rw [exec_bind_ok (ran journal ledger), went, List.append_assoc, List.append_assoc]

theorem Bills.after {action : Action α} {next : α → Action β} (first : action.Bills transaction [])
    (second : ∀ value session after, session.transaction = transaction →
      action.exec session = (.ok value, after) → (next value).Bills after.transaction charges) :
    (action >>= next).Bills transaction charges :=
  first.bind second

theorem Bills.before {action : Action α} {next : α → Action β}
    (first : action.Bills transaction charges)
    (second : ∀ value session after, session.transaction = transaction →
      action.exec session = (.ok value, after) → (next value).Bills after.transaction []) :
    (action >>= next).Bills transaction charges := by
  have both := first.bind second
  rwa [List.append_nil] at both

theorem Bills.forM {step : α → Action PUnit} {charges : α → Ledger} {values : List α}
    (bills : ∀ value ∈ values, ∀ transaction, (step value).Bills transaction (charges value)) :
    ∀ transaction, (values.forM step).Bills transaction (values.flatMap charges) := by
  induction values with
  | nil => exact fun _ => (Still.pure _).bills
  | cons value rest ih =>
      intro transaction
      rw [List.forM, List.flatMap_cons]
      exact (bills value List.mem_cons_self transaction).bind fun _ _ _ _ _ =>
        ih (fun other member => bills other (List.mem_cons_of_mem _ member)) _

theorem bills_chargeWrite (space : Space) (bytes : Nat) :
    (chargeWrite space bytes).Bills transaction [⟨space, 0, writeUnits bytes⟩] :=
  ⟨.ok ⟨⟩, transaction, [], _, List.prefix_rfl, fun _ => rfl, fun _ _ => by
    rw [List.append_nil]
    rfl⟩

theorem bills_rows (change : Transaction → Transaction) :
    (modify fun session => { session with transaction := change session.transaction } :
      Action PUnit).Bills transaction [] :=
  ⟨.ok ⟨⟩, change transaction, [], [], List.prefix_rfl, fun _ => rfl, fun _ _ => by
    rw [List.append_nil, List.append_nil]
    rfl⟩

end Action

namespace Engine

open Action

variable {engine : Engine} {transaction : Transaction}

theorem bills_commit : engine.commit.Bills transaction [] :=
  (engine.still_call _ _).bills.after fun _ _ _ _ _ =>
    bills_rows fun transaction => Transaction.begin transaction.commit

theorem bills_rollback : engine.rollback.Bills transaction [] :=
  (engine.still_call _ _).bills.after fun _ _ _ _ _ =>
    bills_rows fun transaction => Transaction.begin transaction.rollback

theorem bills_putRow (space : Space) (key : RowKey) (document : Document) :
    (engine.putRow space key document).Bills transaction [] :=
  (engine.still_call _ _).bills.after fun _ _ _ _ _ =>
    bills_rows fun transaction => (transaction.put space key document).2

theorem bills_deleteRow (space : Space) (key : RowKey) :
    (engine.deleteRow space key).Bills transaction [] :=
  (engine.still_call _ _).bills.after fun _ _ _ _ _ =>
    bills_rows fun transaction => (transaction.delete space key).2

theorem bills_load (table : Table) (key : RowKey) :
    (engine.load table key).Bills transaction [] := by
  have called := engine.still_call .get (some ⟨table.name, none⟩)
  cases allowed : (engine.call .get (some ⟨table.name, none⟩)).result with
  | error failure =>
      refine ⟨.error failure, transaction, [], [], List.prefix_rfl, fun _ => rfl, fun _ _ => ?_⟩
      rw [List.append_nil, List.append_nil]
      exact exec_bind_error ((called _).trans (by rw [allowed])) _
  | ok value =>
      refine ⟨(transaction.rows.item? ⟨table.name, none⟩ key).elim (.error .store) .ok, transaction,
        [], [], List.prefix_rfl, fun _ => rfl, fun _ _ => ?_⟩
      rw [List.append_nil, List.append_nil]
      exact engine.exec_load_called key ((called _).trans (by rw [allowed]))

theorem bills_writeBase {plan : WritePlan} {stored new : Option Item} :
    (engine.writeBase plan stored new).Bills transaction
      [⟨plan.space, 0, writeUnits (max (Item.sizeOf? stored) (Item.sizeOf? new))⟩] := by
  cases new with
  | some item =>
      exact (Still.require _ _).bills.after fun _ _ _ _ _ =>
        (bills_putRow _ _ _).after fun _ _ _ _ _ => bills_chargeWrite _ _
  | none =>
      cases stored with
      | none => exact bills_chargeWrite _ _
      | some item => exact (bills_deleteRow _ _).after fun _ _ _ _ _ => bills_chargeWrite _ _

theorem bills_putIndexRow (space : Space) (key : RowKey) (item : Item) :
    (engine.putIndexRow space key item).Bills transaction [⟨space, 0, writeUnits item.size⟩] :=
  (bills_chargeWrite _ _).bind fun _ _ _ _ _ => bills_putRow _ _ _

theorem bills_deleteIndexRow (space : Space) (key : RowKey) (item : Item) :
    (engine.deleteIndexRow space key item).Bills transaction [⟨space, 0, writeUnits item.size⟩] :=
  (bills_deleteRow _ _).after fun _ _ _ _ _ => bills_chargeWrite _ _

theorem bills_maintainIndex {table : Table} {stored new : Option Item} {index : Index}
    (keyed : ∀ item, new = some item → ∃ key, index.rowKey? table item = .ok key) :
    (engine.maintainIndex table stored new index).Bills transaction
      (indexCharges table stored new index) := by
  simp only [maintainIndex, newIndexRow_eq keyed, Action.key, Action.ofExcept, indexCharges,
    indexSteps, stepsBetween]
  refine (Still.pure (oldIndexRow table index new)).bills.after fun _ _ _ _ found => ?_
  cases found
  rcases oldIndexRow table index stored with _ | ⟨oldKey, oldItem⟩
  · rcases oldIndexRow table index new with _ | ⟨newKey, newItem⟩
    · exact (Still.pure _).bills
    · exact bills_putIndexRow _ _ _
  · rcases oldIndexRow table index new with _ | ⟨newKey, newItem⟩
    · exact bills_deleteIndexRow _ _ _
    · by_cases sameKey : oldKey = newKey
      · by_cases sameItem : Item.equal oldItem newItem = true
        · simp only [sameKey, sameItem, if_true]
          exact (Still.pure _).bills
        · simp only [sameKey, sameItem, if_true, Bool.false_eq_true, if_false]
          exact bills_putIndexRow _ _ _
      · simp only [sameKey, if_false]
        exact (bills_deleteIndexRow _ _ _).bind fun _ _ _ _ _ => bills_putIndexRow _ _ _

theorem bills_notify (change : Change) :
    ∀ (hooks : List Hook) (transaction : Transaction),
      (engine.notify change hooks).Bills transaction []
  | [], _ => (Still.pure _).bills
  | hook :: rest, transaction => by
      let result := (hook change).run engine.faults transaction
      cases verdict : result.outcome with
      | error message =>
          refine ⟨.error (.hook message), result.transaction, result.noted, [], List.prefix_rfl,
            fun _ => rfl, fun journal ledger => ?_⟩
          simp only [notify, exec_bind, exec_get, exec_set]
          rw [show ((hook change).run engine.faults transaction).outcome = _ from verdict,
            List.append_nil]
          rfl
      | ok _ =>
          obtain ⟨outcome, later, noted, part, within, all, ran⟩ :=
            bills_notify change rest result.transaction
          refine ⟨outcome, later, result.noted ++ noted, part, within, all,
            fun journal ledger => ?_⟩
          simp only [notify, exec_bind, exec_get, exec_set]
          rw [show ((hook change).run engine.faults transaction).outcome = _ from verdict,
            ← List.append_assoc]
          exact ran _ ledger

theorem bills_announce (plan : WritePlan) (stored new : Option Item) :
    (engine.announce plan stored new).Bills transaction [] := by
  rw [announce]
  split
  · exact (Still.pure _).bills
  · exact bills_notify _ _ _

theorem bills_replace {plan : WritePlan} {stored new : Option Item}
    (indexed : ∀ item, new = some item → plan.table.checkIndexKeys item = .ok ()) :
    (engine.replace plan stored new).Bills transaction
      (engine.replacement plan stored new).charges := by
  refine bills_writeBase.bind fun _ _ after _ _ => ?_
  have indexes := @Bills.forM _ (engine.maintainIndex plan.table stored new)
    (indexCharges plan.table stored new) plan.table.indexes (fun index member transaction =>
      bills_maintainIndex fun item same =>
        Table.checkIndexKeys_iff.mp (indexed item same) index member) after.transaction
  exact indexes.before fun _ _ _ _ _ => (bills_announce plan stored new).after
    fun _ _ _ _ _ => (Still.pure _).bills

theorem table_of_mem_chargesOn {plan : WritePlan} (unconditional : plan.Unconditional)
    {store : Store} {charge : Charge} (member : charge ∈ engine.chargesOn store plan) :
    charge.space.table = plan.table.name := by
  obtain ⟨new, told⟩ := @effectOn_of_unconditional engine store _ unconditional
  rw [chargesOn, told] at member
  rcases List.mem_cons.mp member with rfl | member
  · rfl
  · obtain ⟨index, _, member⟩ := List.mem_flatMap.mp member
    obtain ⟨step, _, rfl⟩ := List.mem_map.mp member
    cases step <;> rfl

structure ComesTo (engine : Engine) (store : Store) (plan : WritePlan)
    (outcome : Except Failure WriteOutcome) (rows : Store) (charges : Ledger) : Prop where
  within : charges <+: engine.chargesOn store plan
  ran : ∀ session : Session, session.store = store → ∃ after,
    (engine.executeAlone plan).exec session = (outcome, after) ∧ after.store = rows ∧
      after.ledger = session.ledger ++ charges

section Alone

variable {plan : WritePlan} (prepared : plan.Prepared) (unconditional : plan.Unconditional)

include prepared unconditional

theorem bills_execute :
    (engine.execute plan).Bills transaction (engine.chargesOn transaction.rows plan) := by
  refine (bills_load _ _).after fun stored session after same loading => ?_
  obtain ⟨read, kept⟩ := load_ok loading
  have read : transaction.rows.item? plan.space plan.key = some stored := by
    rw [← same]
    exact read
  have held : conditionHolds plan (engine.visible plan.table stored) = pure true := by
    rw [conditionHolds, unconditional.condition]
  rw [kept, same, chargesOn, effectOn, effect, read, Option.join_some]
  simp only [held, result_pure, pure_bind]
  rcases unconditional.action with delete | ⟨item, put⟩
  · rw [delete]
    exact bills_replace (by simp)
  · rw [put]
    refine bills_replace fun other found => ?_
    cases found
    exact (prepared.put item put).2.2.2

theorem comesTo (store : Store) :
    ∃ outcome rows charges, engine.ComesTo store plan outcome rows charges := by
  have called := engine.still_call .begin none
  cases allowed : (engine.call .begin none).result with
  | error failure =>
      refine ⟨.error failure, store, [], List.nil_prefix, fun session same => ?_⟩
      refine ⟨session, exec_bind_error (exec_bind_error ((called session).trans ?_) _) _, same, ?_⟩
      · rw [allowed]
      · rw [List.append_nil]
  | ok value =>
      have rest : ∃ action, engine.executeAlone plan = engine.begin >>= (fun _ => action) ∧
          action.Bills (Transaction.begin store) (engine.chargesOn store plan) := by
        refine ⟨_, rfl, (bills_execute prepared unconditional).before fun outcome _ _ _ _ => ?_⟩
        cases outcome with
        | conditionFailed item => exact bills_rollback.after fun _ _ _ _ _ => (Still.pure _).bills
        | applied old new => exact bills_commit.after fun _ _ _ _ _ => (Still.pure _).bills
        | checked => exact bills_commit.after fun _ _ _ _ _ => (Still.pure _).bills
      obtain ⟨action, alone, outcome, later, noted, part, within, _, ran⟩ := rest
      refine ⟨outcome, later.rollback, part, within, fun session same => ?_⟩
      have opened : engine.begin.exec session =
          (.ok ⟨⟩, { session with transaction := Transaction.begin store }) := by
        rw [← same]
        exact exec_bind_ok ((called session).trans (by rw [allowed])) _
      rw [alone]
      exact ⟨_, (exec_bind_ok opened _).trans (ran session.journal session.ledger), rfl, rfl⟩

end Alone

theorem executeAlone_applied {plan : WritePlan} (unconditional : plan.Unconditional)
    {session after : Session} {outcome : WriteOutcome}
    (ok : (engine.executeAlone plan).exec session = (.ok outcome, after)) :
    ∃ old new, outcome = .applied old new := by
  obtain ⟨executed, ran, _⟩ := engine.executeAlone_ok ok
  obtain ⟨stored, loaded, _, ran⟩ := of_exec_bind_ok ran
  have held : conditionHolds plan (engine.visible plan.table stored) = pure true := by
    rw [conditionHolds, unconditional.condition]
  have applies : ∀ {new : Option Item},
      (engine.replace plan stored new).exec loaded = (.ok outcome, executed) →
      ∃ old new, outcome = .applied old new := by
    intro new ran
    obtain ⟨_, _, _, ran⟩ := of_exec_bind_ok ran
    obtain ⟨_, _, _, ran⟩ := of_exec_bind_ok ran
    obtain ⟨_, _, _, ran⟩ := of_exec_bind_ok ran
    cases ran
    exact ⟨_, _, rfl⟩
  simp only [held, pure_bind] at ran
  rcases unconditional.action with delete | ⟨item, put⟩
  · rw [delete] at ran
    exact applies ran
  · rw [put] at ran
    exact applies ran

/-! The same writes one by one. -/

structure Bill where
  write : PlannedWrite
  back : Bool
  charges : Ledger

def Bill.InTable (bill : Bill) : Prop :=
  ∀ charge ∈ bill.charges, charge.space.table = bill.write.table

/-- The writes that are not handed back, as requests for one item in their order. Each tells of what
the batch is charged for it. A write that is handed back fails in its place as well and changes
nothing; it tells of no charges, but the batch keeps those from before it failed. -/
inductive InTurn (engine : Engine) : Session → List Bill → Session → Prop
  | nil {session : Session} : InTurn engine session [] session
  | done {write : PlannedWrite} {charges : Ledger} {rest : List Bill} {single : Request}
      {session middle after : Session} (asked : write.request.alone? write.table = some single)
      (told : ∀ capacity, ∃ attributes, engine.handle (single.telling capacity) session =
        (.ok (.written ⟨attributes, charges.consumed capacity write.table⟩), middle))
      (later : InTurn engine middle rest after) :
      InTurn engine session (⟨write, false, charges⟩ :: rest) after
  | back {write : PlannedWrite} {charges : Ledger} {rest : List Bill} {single : Request}
      {session after : Session} (asked : write.request.alone? write.table = some single)
      (refused : ∀ capacity, ∃ failure middle,
        engine.handle (single.telling capacity) session = (.error failure, middle) ∧
          middle.store = session.store ∧ middle.ledger = charges)
      (within : charges <+: engine.chargesOn session.store write.plan)
      (later : InTurn engine session rest after) :
      InTurn engine session (⟨write, true, charges⟩ :: rest) after

section Single

variable {table : Table} {name : String} {write : BatchWrite} {plan : WritePlan}
  {session : Session} {rows : Store} {charges : Ledger}

theorem single_done (planned : (engine.planBatchWrite table write).result = .ok plan)
    (named : plan.table.name = name) {outcome : WriteOutcome}
    (comes : engine.ComesTo session.store plan (.ok outcome) rows charges) :
    ∃ middle : Session, middle.store = rows ∧ ∀ capacity, ∃ attributes,
      (do return .written (← engine.writeSingle (.ok plan) (oldIfWanted none) capacity) :
        Action Response).exec session =
          (.ok (.written ⟨attributes, charges.consumed capacity name⟩), middle) := by
  obtain ⟨middle, alone, stored, charged⟩ := comes.ran { session with ledger := [] } rfl
  obtain ⟨old, new, rfl⟩ := executeAlone_applied (engine.planBatchWrite_ok planned).2 alone
  have written : (engine.writeAlone plan).exec session = (.ok (old, new), middle) :=
    (exec_bind_ok (exec_clearLedger session) _).trans (exec_bind_ok alone _)
  have charged : middle.ledger = charges := charged
  refine ⟨middle, stored, fun capacity =>
    ⟨old.filter fun _ => (none : Option ReturnValues).getD .none == .allOld, ?_⟩⟩
  rw [← named, ← charged]
  exact (exec_bind_ok ((exec_bind_ok rfl _).trans (exec_bind_ok written _)) _).trans rfl

theorem single_fails {failure : Failure}
    (comes : engine.ComesTo session.store plan (.error failure) rows charges) :
    ∃ middle : Session, middle.store = rows ∧ middle.ledger = charges ∧ ∀ capacity,
      (do return .written (← engine.writeSingle (.ok plan) (oldIfWanted none) capacity) :
        Action Response).exec session = (.error failure, middle) := by
  obtain ⟨middle, alone, stored, charged⟩ := comes.ran { session with ledger := [] } rfl
  have failed : (engine.writeAlone plan).exec session = (.error failure, middle) :=
    (exec_bind_ok (exec_clearLedger session) _).trans (exec_bind_error alone _)
  refine ⟨middle, stored, charged, fun capacity => ?_⟩
  exact exec_bind_error ((exec_bind_ok rfl _).trans (exec_bind_error failed _)) _

end Single

/-- A batch is charged what its writes are charged one by one. -/
theorem writeEach_inTurn {writes : List PlannedWrite}
    (planned : ∀ write ∈ writes, engine.Planned write) :
    ∀ {session after other : Session} {left : List PlannedWrite}, other.store = session.store →
      (engine.writeEach writes).exec session = (.ok left, after) →
      ∃ bills last, engine.InTurn other bills last ∧ last.store = after.store ∧
        bills.map Bill.write = writes ∧ left = (bills.filter Bill.back).map Bill.write ∧
        (∀ bill ∈ bills, bill.InTable) ∧
        after.ledger = session.ledger ++ (bills.map Bill.charges).flatten := by
  induction writes with
  | nil =>
      intro session after other left same ok
      cases ok
      exact ⟨[], other, .nil, same, rfl, rfl, List.forall_mem_nil _, (List.append_nil _).symm⟩
  | cons write rest ih =>
      intro session after other left same ok
      obtain ⟨⟨table, found, named, made⟩, later⟩ := List.forall_mem_cons.mp planned
      obtain ⟨prepared, unconditional⟩ := engine.planBatchWrite_ok made
      obtain ⟨single, asked, answers⟩ := answer_telling found made
      obtain ⟨outcome, rows, charges, comes⟩ :=
        @comesTo engine write.plan prepared unconditional session.store
      have here : ∀ charge ∈ charges, charge.space.table = write.table := fun charge member =>
        (table_of_mem_chargesOn unconditional (comes.within.mem member)).trans named
      obtain ⟨middle, ran, stored, charged⟩ := comes.ran session rfl
      rw [← same] at comes
      rcases writeEach_ok ok with
        ⟨_, reached, alone, going⟩ | ⟨failure, reached, others, alone, kept, going, rfl⟩
      · cases ran.symm.trans alone
        obtain ⟨next, nextStored, told⟩ := single_done made named comes
        obtain ⟨bills, last, inTurn, ends, rfl, rfl, own, total⟩ :=
          @ih later _ _ next _ (nextStored.trans stored.symm) going
        refine ⟨⟨write, false, charges⟩ :: bills, last, .done asked (fun capacity => ?_) inTurn,
          ends, rfl, rfl, List.forall_mem_cons.mpr ⟨here, own⟩, ?_⟩
        · obtain ⟨attributes, went⟩ := told capacity
          refine ⟨attributes, ?_⟩
          rw [← went, ← answers capacity]
          rfl
        · rw [total, charged, List.append_assoc]
          rfl
      · cases ran.symm.trans alone
        obtain ⟨next, nextStored, nextCharged, told⟩ := single_fails comes
        obtain ⟨bills, last, inTurn, ends, rfl, rfl, own, total⟩ :=
          @ih later _ _ other _ (same.trans kept.symm) going
        refine ⟨⟨write, true, charges⟩ :: bills, last,
          .back asked (fun capacity => ⟨failure, next, ?_, ?_, nextCharged⟩) comes.within inTurn,
          ends, rfl, rfl, List.forall_mem_cons.mpr ⟨here, own⟩, ?_⟩
        · rw [← told capacity, ← answers capacity]
          rfl
        · rw [nextStored, ← stored, kept, same]
        · rw [total, charged, List.append_assoc]
          rfl

/-- How a batch that is answered is charged: for its writes, one by one. What it is charged for the
writes that it hands back comes on top of what the others tell. -/
structure ChargesInTurn (engine : Engine) (session : Session) (request : BatchWriteRequest)
    (response : BatchWriteResponse) (after : Session) (bills : List Bill) : Prop where
  asked : ∀ name table, engine.tables.get? name = some table →
    (bills.filter fun bill => bill.write.table == name).map (fun bill => bill.write.request) =
      (request.tables.get? name).getD []
  left : ∀ name table, engine.tables.get? name = some table →
    (response.unprocessed.get? name).getD [] =
      (bills.filter fun bill => bill.write.table == name && bill.back).map
        fun bill => bill.write.request
  planned : ∀ bill ∈ bills, engine.Planned bill.write
  inTurn : ∃ last, engine.InTurn session bills last ∧ last.store = after.store
  own : ∀ bill ∈ bills, bill.InTable
  consumed :
    let parts := bills.map Bill.charges
    Ledger.Multiplies parts.flatten 1 parts ∧
      response.consumed = Ledger.consumedAll parts.flatten request.capacity
  done : (∀ bill ∈ bills, bill.back = true → bill.charges = []) →
    Ledger.Multiplies (bills.map Bill.charges).flatten 1
      ((bills.filter fun bill => !bill.back).map Bill.charges)

theorem flatten_done {bills : List Bill}
    (free : ∀ bill ∈ bills, bill.back = true → bill.charges = []) :
    (bills.map Bill.charges).flatten =
      ((bills.filter fun bill => !bill.back).map Bill.charges).flatten := by
  induction bills with
  | nil => rfl
  | cons bill rest ih =>
      obtain ⟨here, later⟩ := List.forall_mem_cons.mp free
      rw [List.map_cons, List.flatten_cons, ih later, List.filter_cons]
      cases back : bill.back with
      | false => rfl
      | true =>
          rw [here back]
          rfl

/-- In every batch that is answered, whichever table it visits first, what is charged is what its
writes are charged one by one. -/
theorem batchWrite_chargesInTurn (named : Named engine.tables) {request : BatchWriteRequest}
    (ascending : request.tables.Ascending) {order : List (Table × List BatchWrite)}
    (perm : order.Perm (engine.knownTables request.tables)) {response : BatchWriteResponse}
    {session after : Session}
    (ok : (engine.batchWriteIn order request).exec session = (.ok response, after)) :
    ∃ bills, engine.ChargesInTurn session request response after bills := by
  obtain ⟨writes, back, made, writing, unprocessed, consumed⟩ := batchWriteIn_ok ok
  obtain ⟨_, rfl, fits, _, _⟩ := plansWrite_of_ok made
  have planned := planned_of_plansWrite named perm fits
  obtain ⟨bills, last, inTurn, ends, rfl, rfl, own, total⟩ :=
    @writeEach_inTurn engine writes planned { session with ledger := [] } after session back rfl
      writing
  have total : after.ledger = (bills.map Bill.charges).flatten := total
  refine ⟨bills, ?_, ?_, fun bill member => planned _ (List.mem_map_of_mem member),
    ⟨last, inTurn, ends⟩, own, ⟨Ledger.multiplies_flatten _, ?_⟩, fun free => ?_⟩
  · intro name table listed
    have same := requests_of_plansWrite named listed ascending perm fits
    rw [List.filter_map, List.map_map] at same
    exact same
  · intro name table listed
    rw [unprocessed, get?_handBack, get?_unknownTables, Dict.contains, listed, List.filter_map,
      List.map_map, List.filter_filter]
    rfl
  · rw [← total]
    exact consumed
  · rw [flatten_done free]
    exact Ledger.multiplies_flatten _

end Engine

/-! A batch of two notes, one of which a hook does not let pass. -/

namespace GuardedNotes

def notes : Table := ⟨"notes", "id", none, [⟨"by-tag", "tag", none, .all⟩], none⟩

def engine : Engine :=
  ⟨[("notes", notes)], Config.default, [Hook.fail (some .insert) (some "bad") "no"], [], 0⟩

def session : Session := Session.ofStore .empty

def bad : Item := [("bad", .boolean true), ("id", .string "a"), ("tag", .string "x")]

def good : Item := [("id", .string "b"), ("tag", .string "x")]

def batch : BatchWriteRequest :=
  ⟨[("notes", [⟨some bad, none⟩, ⟨some good, none⟩])], some .indexes⟩

def consumed (units : Nat) : ConsumedCapacity :=
  let each : CapacityUnits := ⟨none, some (.ofNat units), some (.ofNat units)⟩
  ⟨some "notes", ⟨none, some (.ofNat (2 * units)), some (.ofNat (2 * units))⟩, some each,
    [("by-tag", each)]⟩

theorem quiet : ∀ hook ∈ engine.hooks, hook.Quiet := by
  intro hook member faults change transaction
  rw [List.mem_singleton.mp member, Hook.fail]
  split <;> rfl

theorem chargesInTurn_batch : ∃ response after,
    (engine.batchWrite batch).exec session = (.ok response, after) ∧
      response.consumed = [consumed 2] ∧
      ∃ bills, engine.ChargesInTurn session batch response after bills := by
  have answered : ((engine.batchWrite batch).exec session).1.toOption.any (fun response =>
      response.consumed = [consumed 2]) = true := by decide +kernel
  obtain ⟨response, after, ran, told⟩ := Action.ok_of_any answered
  exact ⟨response, after, ran, of_decide_eq_true told,
    engine.batchWrite_chargesInTurn (named_of_entries (by decide)) (by decide) (List.Perm.refl _)
      ran⟩

/-- The batch hands the first note back and tells of two units for the table and two for the index.
The request for the other note alone tells of one each. -/
theorem batch_charges_undone :
    (Named engine.tables ∧ DistinctIndexes engine.tables ∧ (∀ hook ∈ engine.hooks, hook.Quiet) ∧
      Reachable engine.tables session.store) ∧
    (∃ response after, (engine.batchWrite batch).exec session = (.ok response, after) ∧
      (((response.unprocessed.get? "notes").getD []).map BatchWrite.put == [some bad]) = true ∧
      response.consumed = [consumed 2]) ∧
    ∃ response after,
      (engine.putItem ⟨"notes", good, none, .none, none, none, some .indexes⟩).exec session =
        (.ok response, after) ∧ response.consumed = some (consumed 1) := by
  have answered : ((engine.batchWrite batch).exec session).1.toOption.any (fun response =>
      (((response.unprocessed.get? "notes").getD []).map BatchWrite.put == [some bad]) &&
        decide (response.consumed = [consumed 2])) = true := by decide +kernel
  have alone : ((engine.putItem ⟨"notes", good, none, .none, none, none, some .indexes⟩).exec
      session).1.toOption.any (fun response =>
        decide (response.consumed = some (consumed 1))) = true := by decide +kernel
  obtain ⟨response, after, ran, told⟩ := Action.ok_of_any answered
  obtain ⟨back, told⟩ := Bool.and_eq_true_iff.mp told
  obtain ⟨single, last, went, told'⟩ := Action.ok_of_any alone
  exact ⟨⟨named_of_entries (by decide), distinctIndexes_of_entries (by decide), quiet, .empty⟩,
    ⟨response, after, ran, back, of_decide_eq_true told⟩,
    ⟨single, last, went, of_decide_eq_true told'⟩⟩

end GuardedNotes
end ItemStore
