import ItemStore.Proofs.Engine.Ownership
import ItemStore.Proofs.Engine.Transactions
import ItemStore.Proofs.Store.Ranges

/-!
Requests fail for their own sake. Where every row can be read, no hook fails and the store refuses
nothing, what a request fails for is in the request or in the condition it states, never in the
store.
-/

namespace ItemStore

def Failure.Own (failure : Failure) : Prop :=
  failure.code ≠ .internalServerError

def Failure.Invalid (failure : Failure) : Prop :=
  failure.code = .validation

class Failure.Admits (kind : Failure → Prop) : Prop where
  invalid : ∀ {failure : Failure}, failure.Invalid → kind failure

instance : Failure.Admits Failure.Invalid := ⟨id⟩

instance : Failure.Admits Failure.Own where
  invalid invalid internal := by
    rw [Failure.Invalid.eq_1, internal] at invalid
    cases invalid

namespace Action

variable {α β : Type}

def Leads (before : Session → Prop) (action : Action α) (after : α → Session → Prop) : Prop :=
  ∀ session, before session →
    match action.exec session with
    | (.ok value, last) => after value last
    | (.error failure, _) => failure.Own

variable {before : Session → Prop} {after : α → Session → Prop} {last : β → Session → Prop}

theorem Leads.bind {action : Action α} {next : α → Action β} (first : action.Leads before after)
    (second : ∀ value, (next value).Leads (after value) last) :
    (action >>= next).Leads before last := by
  intro session holds
  have here := first session holds
  cases ran : action.exec session with
  | mk outcome middle =>
      rw [ran] at here
      cases outcome with
      | ok value =>
          rw [exec_bind_ok ran]
          exact second value middle here
      | error failure =>
          rw [exec_bind_error ran]
          exact here

theorem Leads.still_bind {action : Action α} {next : α → Action β} (still : action.Still)
    (own : action.FailsAs Failure.Own)
    (second : ∀ value, action.result = .ok value → (next value).Leads before last) :
    (action >>= next).Leads before last := by
  intro session holds
  rw [exec_bind, still session]
  cases outcome : action.result with
  | ok value => exact second value outcome session holds
  | error failure => exact own.of_result outcome

theorem Leads.of_still {action : Action α} (still : action.Still)
    (own : action.FailsAs Failure.Own) : action.Leads before fun _ => before := by
  intro session holds
  rw [still session]
  cases outcome : action.result with
  | ok value => exact holds
  | error failure => exact own.of_result outcome

theorem Leads.pure (value : α) : (Pure.pure value : Action α).Leads before fun _ => before :=
  fun _ holds => holds

theorem Leads.ite {condition : Prop} [Decidable condition] {yes no : Action α}
    (first : yes.Leads before after) (second : no.Leads before after) :
    (if condition then yes else no).Leads before after := by
  split
  · exact first
  · exact second

theorem Leads.of_own {action : Action α} (own : action.FailsAs Failure.Own) :
    action.Leads before fun _ _ => True := by
  intro session _
  split <;> rename_i ran
  · trivial
  · exact own _ _ _ ran

theorem Leads.mapM {step : α → Action β} {values : List α}
    (leads : ∀ value ∈ values, (step value).Leads before fun _ => before) :
    (values.mapM step).Leads before fun _ => before := by
  induction values with
  | nil => exact Leads.pure _
  | cons value rest ih =>
      rw [List.mapM_cons]
      exact (leads value List.mem_cons_self).bind fun _ =>
        (ih fun other member => leads other (List.mem_cons_of_mem _ member)).bind fun _ =>
          Leads.pure _

variable {kind : Failure → Prop} [Failure.Admits kind]

theorem own_expression (outcome : Except ExpressionError α) :
    (expression outcome).FailsAs kind :=
  FailsAs.ofExcept (fun _ => Failure.Admits.invalid (by exact rfl)) _

theorem own_key (outcome : Except KeyError α) : (key outcome).FailsAs kind :=
  FailsAs.ofExcept (fun _ => Failure.Admits.invalid (by exact rfl)) _

theorem own_value (outcome : Except ValueError α) : (value outcome).FailsAs kind :=
  FailsAs.ofExcept (fun _ => Failure.Admits.invalid (by exact rfl)) _

theorem own_refuse (fault : RequestFault) : (refuse fault : Action α).FailsAs kind :=
  FailsAs.throw (Failure.Admits.invalid rfl)

theorem own_require (condition : Bool) (fault : RequestFault) :
    (require condition fault).FailsAs kind := by
  rw [Action.require]
  split
  · exact FailsAs.pure _
  · exact own_refuse _

theorem own_mapM {step : α → Action β} (own : ∀ value, (step value).FailsAs Failure.Own) :
    ∀ values : List α, (values.mapM step).FailsAs Failure.Own
  | [] => FailsAs.pure _
  | value :: rest => by
      rw [List.mapM_cons]
      exact (own value).bind fun _ => (own_mapM own rest).bind fun _ => FailsAs.pure _

end Action

namespace Engine

open Action

/-! Checks and plans fail for the request's sake. -/

section Plans

variable (engine : Engine) {kind : Failure → Prop} [Failure.Admits kind]

theorem own_table (name : String) : (engine.table name).FailsAs Failure.Own := by
  rw [Engine.table]
  split
  · exact FailsAs.pure _
  · refine FailsAs.throw fun internal => ?_
    cases internal

theorem own_checkPlaceholders {α : Type} (used : Placeholders) (names : Dict String String)
    (values : Dict String α) :
    (engine.checkPlaceholders used names values).FailsAs kind := by
  rw [checkPlaceholders]
  split
  · exact own_expression _
  · exact FailsAs.pure _

theorem own_parseProjection (text : Option String) :
    (parseProjection text).FailsAs kind := by
  cases text with
  | none => exact FailsAs.pure _
  | some text => exact (own_expression _).bind fun _ => FailsAs.pure _

theorem own_parseCondition (text : Option String) : (parseCondition text).FailsAs kind := by
  cases text with
  | none => exact FailsAs.pure _
  | some text => exact (own_expression _).bind fun _ => FailsAs.pure _

theorem own_parseUpdate (text : Option String) : (parseUpdate text).FailsAs kind := by
  cases text with
  | none => exact FailsAs.pure _
  | some text => exact own_expression _

theorem own_parsePaths (text : Option String) (names : Dict String String) :
    (engine.parsePaths text names).FailsAs kind :=
  (own_parseProjection text).bind fun _ =>
    (engine.own_checkPlaceholders _ _ _).bind fun _ => FailsAs.pure _

theorem own_projected (paths : Option (List Path)) (bindings : Bindings) (item : Item) :
    (projected paths bindings item).FailsAs kind := by
  cases paths with
  | none => exact FailsAs.pure _
  | some paths => exact own_expression _

theorem own_projectFound (plan : ReadPlan) (found : Option Item) :
    (projectFound plan found).FailsAs kind := by
  cases found with
  | none => exact FailsAs.pure _
  | some item => exact (own_projected _ _ _).bind fun _ => FailsAs.pure _

theorem own_keyOf (table : Table) (key : Item) : (keyOf table key).FailsAs kind :=
  (own_key _).bind fun _ => own_key _

theorem own_checkBindings (used : Placeholders) (bindings : Bindings) :
    (engine.checkBindings used bindings).FailsAs kind :=
  (engine.own_checkPlaceholders _ _ _).bind fun _ => own_value _

theorem own_planGet (table : String) (key : Item) (projection : Option String)
    (names : Dict String String) :
    (engine.planGet table key projection names).FailsAs Failure.Own :=
  (engine.own_table _).bind fun _ => (own_keyOf _ _).bind fun _ =>
    (engine.own_parsePaths _ _).bind fun _ => FailsAs.pure _

theorem own_planPut (table : Table) (item : Item) (condition : Option String)
    (bindings : Bindings) (returnsOld : Bool) :
    (engine.planPut table item condition bindings returnsOld).FailsAs kind :=
  (own_value _).bind fun _ => (own_key _).bind fun _ => (own_require _ _).bind fun _ =>
    (own_key _).bind fun _ => (own_parseCondition _).bind fun _ =>
      (engine.own_checkBindings _ _).bind fun _ => FailsAs.pure _

theorem own_planUpdate (table : Table) (key : Item) (update condition : Option String)
    (bindings : Bindings) (returnsOld : Bool) :
    (engine.planUpdate table key update condition bindings returnsOld).FailsAs kind :=
  (own_keyOf _ _).bind fun _ => (own_parseUpdate _).bind fun _ =>
    (own_parseCondition _).bind fun _ => (own_expression _).bind fun _ =>
      (engine.own_checkBindings _ _).bind fun _ => FailsAs.pure _

theorem own_planDelete (table : Table) (key : Item) (condition : Option String)
    (bindings : Bindings) (returnsOld : Bool) :
    (engine.planDelete table key condition bindings returnsOld).FailsAs kind :=
  (own_keyOf _ _).bind fun _ => (own_parseCondition _).bind fun _ =>
    (engine.own_checkBindings _ _).bind fun _ => FailsAs.pure _

theorem own_planCheck (table : Table) (key : Item) (condition : String) (bindings : Bindings)
    (returnsOld : Bool) :
    (engine.planCheck table key condition bindings returnsOld).FailsAs Failure.Own :=
  (own_keyOf _ _).bind fun _ => (own_expression _).bind fun _ =>
    (engine.own_checkBindings _ _).bind fun _ => FailsAs.pure _

theorem own_planTransactWrite (request : TransactWrite) :
    (engine.planTransactWrite request).FailsAs Failure.Own := by
  rw [Engine.planTransactWrite]
  split
  · exact (engine.own_table _).bind fun _ => engine.own_planCheck _ _ _ _ _
  · exact (engine.own_table _).bind fun _ => engine.own_planPut _ _ _ _ _
  · exact (engine.own_table _).bind fun _ => engine.own_planDelete _ _ _ _ _
  · exact (engine.own_table _).bind fun _ => engine.own_planUpdate _ _ _ _ _ _
  · exact own_refuse _

theorem own_planTransactWrites :
    ∀ (requests : List TransactWrite) (planned : List WritePlan),
      (engine.planTransactWrites planned requests).FailsAs Failure.Own
  | [], _ => FailsAs.pure _
  | request :: rest, _ =>
      (engine.own_planTransactWrite request).bind fun _ => (own_require _ _).bind fun _ =>
        own_planTransactWrites rest _

theorem own_planBatchWrite (table : Table) (request : BatchWrite) :
    (engine.planBatchWrite table request).FailsAs Failure.Own := by
  rw [Engine.planBatchWrite]
  split
  · exact engine.own_planPut _ _ _ _ _
  · exact engine.own_planDelete _ _ _ _ _
  · exact own_refuse _

theorem own_planBatchWrites :
    ∀ (requests : List (Table × BatchWrite)) (planned : List PlannedWrite),
      (engine.planBatchWrites planned requests).FailsAs Failure.Own
  | [], _ => FailsAs.pure _
  | (table, request) :: rest, _ =>
      (engine.own_planBatchWrite table request).bind fun _ => (own_require _ _).bind fun _ =>
        own_planBatchWrites rest _

theorem own_distinctKeys (table : Table) :
    ∀ (keys : List Item) (seen : List RowKey),
      (distinctKeys table seen keys).FailsAs Failure.Own
  | [], _ => FailsAs.pure _
  | key :: rest, _ =>
      (own_keyOf table key).bind fun _ => (own_require _ _).bind fun _ =>
        own_distinctKeys table rest _

theorem own_planKeys (table : Table) (request : KeysRequest) :
    (engine.planKeys table request).FailsAs Failure.Own :=
  (engine.own_parsePaths _ _).bind fun _ => (own_distinctKeys _ _ _).bind fun _ => FailsAs.pure _

theorem own_pageIndex (table : Table) (name : Option String) :
    (pageIndex table name).FailsAs kind := by
  cases name with
  | none => exact FailsAs.pure _
  | some name =>
      rw [pageIndex]
      split
      · exact FailsAs.pure _
      · exact own_refuse _

theorem own_checkSelect (select : Option Select) (projects onIndex : Bool) :
    (checkSelect select projects onIndex).FailsAs kind := by
  rw [checkSelect.eq_def]
  split
  · exact FailsAs.pure _
  · exact own_require _ _
  · exact (own_require _ _).bind fun _ => own_require _ _
  · exact own_require _ _

theorem own_pageSize (limit : Option Int) : (engine.pageSize limit).FailsAs kind := by
  cases limit with
  | none => exact FailsAs.pure _
  | some limit =>
      simp only [pageSize]
      split
      · exact own_refuse _
      · exact FailsAs.pure _

theorem own_startKey (space : Space) (token : Option String) :
    (startKey space token).FailsAs kind := by
  cases token with
  | none => exact FailsAs.pure _
  | some token =>
      exact (FailsAs.ofExcept (fun _ => Failure.Admits.invalid (by exact rfl)) _).bind
        fun _ => FailsAs.pure _

theorem own_parseKeyCondition (text : Option String) :
    (parseKeyCondition text).FailsAs kind := by
  cases text with
  | none => exact own_refuse _
  | some text => exact own_expression _

theorem FailsAs.planQuery {request : QueryRequest}
    (known : (engine.table request.table).FailsAs kind) :
    (engine.planQuery request).FailsAs kind :=
  known.bind fun _ => (own_pageIndex _ _).bind fun _ =>
    (own_checkSelect _ _ _).bind fun _ => (engine.own_pageSize _).bind fun _ =>
      (own_parseKeyCondition _).bind fun _ => (own_parseCondition _).bind fun _ =>
        (own_parseProjection _).bind fun _ => (engine.own_checkPlaceholders _ _ _).bind fun _ =>
          (own_expression _).bind fun _ => (own_startKey _ _).bind fun _ =>
            (own_require _ _).bind fun _ => FailsAs.pure _

theorem own_planQuery (request : QueryRequest) : (engine.planQuery request).FailsAs Failure.Own :=
  FailsAs.planQuery engine (engine.own_table _)

theorem own_planScan (request : ScanRequest) : (engine.planScan request).FailsAs Failure.Own :=
  (engine.own_table _).bind fun _ => (own_pageIndex _ _).bind fun _ =>
    (own_checkSelect _ _ _).bind fun _ => (engine.own_pageSize _).bind fun _ =>
      (own_parseCondition _).bind fun _ => (own_parseProjection _).bind fun _ =>
        (engine.own_checkPlaceholders _ _ _).bind fun _ =>
          (own_startKey _ _).bind fun _ => FailsAs.pure _

theorem own_checkTransactionSize (count : Nat) :
    (checkTransactionSize count).FailsAs Failure.Own :=
  (own_require _ _).bind fun _ => own_require _ _

theorem own_updatedParts (update : Update) (bindings : Bindings) (image : Option Item) :
    (updatedParts update bindings image).FailsAs kind := by
  cases image with
  | none => exact FailsAs.pure _
  | some item => exact (own_projected _ _ _).bind fun _ => FailsAs.pure _

theorem own_updateAttributes (returnValues : ReturnValues) (update : Update)
    (bindings : Bindings) (old new : Option Item) :
    (updateAttributes returnValues update bindings old new).FailsAs kind := by
  cases returnValues with
  | none => exact FailsAs.pure _
  | allOld => exact FailsAs.pure _
  | allNew => exact FailsAs.pure _
  | updatedOld => exact own_updatedParts _ _ _
  | updatedNew => exact own_updatedParts _ _ _

theorem own_writeEach : ∀ writes : List PlannedWrite,
    (engine.writeEach writes).FailsAs Failure.Own
  | [] => FailsAs.pure _
  | write :: rest => by
      refine FailsAs.bind (fun _ _ _ failed => nomatch failed) fun outcome => ?_
      cases outcome with
      | ok outcome => exact own_writeEach rest
      | error failure =>
          by_cases passes : failure.code.isRetryable = true
          · simp only [passes, if_true]
            exact (own_writeEach rest).bind fun _ => FailsAs.pure _
          · -- An internal error would have been handed back.
            simp only [passes, Bool.false_eq_true, if_false]
            refine FailsAs.throw fun internal => passes ?_
            rw [internal]
            rfl

theorem own_batchWrite (request : BatchWriteRequest) :
    (engine.batchWrite request).FailsAs Failure.Own :=
  (own_require _ _).bind fun _ => (own_require _ _).bind fun _ =>
    (engine.own_planBatchWrites _ _).bind fun _ => (FailsAs.modify _).bind fun _ =>
      (engine.own_writeEach _).bind fun _ => FailsAs.bind (FailsAs.get.bind fun _ => FailsAs.pure _)
        fun _ => FailsAs.pure _

end Plans

theorem own_readDocument {document : Document} (readable : document.toItem? ≠ none) :
    (readDocument document).FailsAs Failure.Own := by
  rw [readDocument]
  split
  · exact FailsAs.pure _
  · rename_i unread
    exact absurd unread readable

theorem own_passes {kind : Failure → Prop} [Failure.Admits kind] (filter : Option Condition)
    (bindings : Bindings) (item : Item) :
    (passes filter bindings item).FailsAs kind := by
  cases filter with
  | none => exact FailsAs.pure _
  | some condition => exact own_expression _

theorem own_addRow {engine : Engine} {plan : PagePlan} {page : Page} {row : Row}
    (readable : row.document.toItem? ≠ none) :
    (engine.addRow plan page row).FailsAs Failure.Own := by
  refine (own_readDocument readable).bind fun item => ?_
  split
  · exact FailsAs.pure _
  · refine (own_passes _ _ _).bind fun passed => ?_
    split
    · split
      · exact FailsAs.pure _
      · exact (own_projected _ _ _).bind fun _ => FailsAs.pure _
    · exact FailsAs.pure _

theorem own_addRows {engine : Engine} {plan : PagePlan} {rows : List Row}
    (readable : ∀ row ∈ rows, row.document.toItem? ≠ none) :
    ∀ page, (rows.foldlM (engine.addRow plan) page).FailsAs Failure.Own := by
  induction rows with
  | nil => exact fun page => FailsAs.pure page
  | cons row rest ih =>
      intro page
      rw [List.foldlM_cons]
      exact (own_addRow (readable row List.mem_cons_self)).bind
        (ih fun other member => readable other (List.mem_cons_of_mem _ member))

/-! Requests on a store of which every row can be read. -/

section Steady

variable {engine : Engine} {store : Store} (steady : ¬engine.Fragile) (readable : store.Readable)

def Over (store : Store) (session : Session) : Prop :=
  session.store = store

def Reads (store : Store) (session : Session) : Prop :=
  session.transaction.rows = store

theorem leads_clearLedger : clearLedger.Leads (Over store) fun _ => Over store :=
  fun _ committed => committed

theorem leads_chargeRead (space : Space) (bytes : Nat) :
    (chargeRead space bytes).Leads (Reads store) fun _ => Reads store :=
  fun _ reads => reads

include steady

theorem leads_begin : engine.begin.Leads (Over store) fun _ => Reads store := by
  intro session committed
  rw [exec_begin_steady steady]
  exact committed

theorem leads_rollback {before : Session → Prop} :
    engine.rollback.Leads before fun _ _ => True := by
  intro session _
  rw [exec_rollback_steady steady]
  trivial

include readable

theorem leads_load (table : Table) (key : RowKey) :
    (engine.load table key).Leads (Reads store) fun _ => Reads store := by
  intro session reads
  obtain ⟨stored, read⟩ :=
    Option.ne_none_iff_exists'.mp (readable.item?_ne_none ⟨table.name, none⟩ key)
  rw [exec_load_steady steady, reads, read]
  exact reads

theorem leads_find (plan : ReadPlan) :
    (engine.find plan).Leads (Reads store) fun _ => Reads store :=
  (leads_load steady readable _ _).bind fun _ =>
    (leads_chargeRead _ _).bind fun _ => Leads.pure _

theorem leads_fetch (plan : ReadPlan) :
    (engine.fetch plan).Leads (Reads store) fun _ => Reads store :=
  (leads_find steady readable plan).bind fun _ =>
    Leads.of_still (still_projectFound _ _) (own_projectFound _ _)

theorem leads_getItem (request : GetItemRequest) :
    (engine.getItem request).Leads (Over store) fun _ _ => True :=
  Leads.still_bind (engine.still_planGet _ _ _ _) (engine.own_planGet _ _ _ _) fun plan _ =>
    leads_clearLedger.bind fun _ => (leads_begin steady).bind fun _ =>
      (leads_find steady readable plan).bind fun _ => (leads_rollback steady).bind fun _ =>
        Leads.still_bind (still_projectFound _ _) (own_projectFound _ _) fun _ _ =>
          fun _ _ => trivial

theorem leads_batchGet (request : BatchGetRequest) :
    (engine.batchGet request).Leads (Over store) fun _ _ => True := by
  refine Leads.still_bind (Still.require _ _) (own_require _ _) fun _ _ => ?_
  refine Leads.still_bind (Still.require _ _) (own_require _ _) fun _ _ => ?_
  have still := Still.mapM (fun entry : Table × KeysRequest =>
    (engine.still_planKeys entry.1 entry.2).bind fun plans =>
      Still.pure (entry.1.name, plans)) (engine.knownTables request.tables)
  have own := own_mapM (fun entry : Table × KeysRequest =>
    (engine.own_planKeys entry.1 entry.2).bind fun plans =>
      FailsAs.pure (entry.1.name, plans)) (engine.knownTables request.tables)
  refine Leads.still_bind still own fun plans _ => ?_
  refine leads_clearLedger.bind fun _ => (leads_begin steady).bind fun _ => ?_
  refine Leads.bind (Leads.mapM fun entry _ => ?_) fun found => ?_
  · exact (Leads.mapM fun plan _ => leads_fetch steady readable plan).bind fun _ => Leads.pure _
  · exact (leads_rollback steady).bind fun _ => fun _ _ => trivial

theorem leads_transactGet (request : TransactGetRequest) :
    (engine.transactGet request).Leads (Over store) fun _ _ => True := by
  refine Leads.still_bind (still_checkTransactionSize _) (own_checkTransactionSize _) fun _ _ => ?_
  refine Leads.still_bind (Still.mapM (fun _ => engine.still_planGet _ _ _ _) _)
    (own_mapM (fun _ => engine.own_planGet _ _ _ _) _) fun plans _ => ?_
  refine leads_clearLedger.bind fun _ => (leads_begin steady).bind fun _ => ?_
  refine Leads.bind (Leads.mapM fun plan _ => leads_fetch steady readable plan) fun items => ?_
  exact (leads_rollback steady).bind fun _ => fun _ _ => trivial

theorem leads_readPage (plan : PagePlan) (detail : Option CapacityDetail) :
    (engine.readPage plan detail).Leads (Over store) fun _ _ => True := by
  refine leads_clearLedger.bind fun _ => (leads_begin steady).bind fun _ => ?_
  intro session reads
  rw [exec_bind_ok (exec_queryRows_steady steady _ _ session)]
  refine (leads_rollback steady).bind (fun _ => ?_) session reads
  refine Leads.still_bind (Still.foldlM (engine.still_addRow plan) _ _) (own_addRows ?_ _)
    fun _ _ => fun _ _ => trivial
  intro row member
  have found : session.transaction.rows.get? plan.space row.key = some row.document :=
    Store.get?_of_mem_query (List.mem_of_mem_take member)
  rw [reads] at found
  exact readable _ _ _ found

end Steady

theorem Ready.of_read {engine : Engine} {store : Store} {items : String → RowKey → Option Item}
    (records : Records engine.tables store items) {plan : WritePlan}
    (sound : plan.Sound engine.tables) (readable : store.item? plan.space plan.key ≠ none) :
    engine.Ready store plan := by
  refine ⟨sound, readable, fun item read => ?_⟩
  have accepted := records.accepted plan.table sound.listed plan.key item
    (records.item?_eq sound.listed read)
  exact ⟨accepted.ordered, accepted.keyed⟩

theorem Ready.of_records {engine : Engine} {store : Store} {items : String → RowKey → Option Item}
    (records : Records engine.tables store items) (readable : store.Readable) {plan : WritePlan}
    (sound : plan.Sound engine.tables) : engine.Ready store plan :=
  Ready.of_read records sound (readable.item?_ne_none _ _)

section Writes

variable {engine : Engine} {store : Store} (quiet : ∀ hook ∈ engine.hooks, hook.Quiet)
  (steady : ¬engine.Fragile) (named : Named engine.tables)
  (ready : ∀ plan : WritePlan, plan.Sound engine.tables → engine.Ready store plan)

include quiet steady

theorem leads_writeAlone {plan : WritePlan} (ready : engine.Ready store plan) :
    (engine.writeAlone plan).Leads (Over store) fun _ _ => True := by
  refine leads_clearLedger.bind fun _ => ?_
  intro session committed
  have same : session.store.item? plan.space plan.key = store.item? plan.space plan.key := by
    rw [committed]
  obtain ⟨after, ran, _⟩ := executeAlone_on quiet steady ready same
  cases told : engine.effectOn store plan with
  | error failure =>
      rw [told] at ran
      rw [exec_bind_error ran]
      have own : failure.code = .validation := effect_error told
      show failure.code ≠ .internalServerError
      rw [own]
      exact nofun
  | ok effect =>
      rw [told] at ran
      rw [exec_bind_ok ran]
      cases effect.outcome with
      | applied old new => trivial
      | checked => trivial
      | conditionFailed item => exact nofun

include named ready

theorem leads_putItem {request : PutItemRequest} (ordered : (Request.putItem request).Ordered) :
    (engine.putItem request).Leads (Over store) fun _ _ => True := by
  refine Leads.still_bind (engine.still_table _) (engine.own_table _) fun table found => ?_
  refine Leads.still_bind (Still.require _ _) (own_require _ _) fun _ _ => ?_
  refine Leads.still_bind (engine.still_planPut _ _ _ _ _) (engine.own_planPut _ _ _ _ _)
    fun plan planned => ?_
  have sound := planPut_sound planned (table_listed named found) ordered.1 ordered.2
  exact (leads_writeAlone quiet steady (ready plan sound)).bind fun _ => fun _ _ => trivial

theorem leads_deleteItem {request : DeleteItemRequest}
    (ordered : (Request.deleteItem request).Ordered) :
    (engine.deleteItem request).Leads (Over store) fun _ _ => True := by
  refine Leads.still_bind (engine.still_table _) (engine.own_table _) fun table found => ?_
  refine Leads.still_bind (Still.require _ _) (own_require _ _) fun _ _ => ?_
  refine Leads.still_bind (engine.still_planDelete _ _ _ _ _) (engine.own_planDelete _ _ _ _ _)
    fun plan planned => ?_
  have sound := planDelete_sound planned (table_listed named found) ordered.1 ordered.2
  exact (leads_writeAlone quiet steady (ready plan sound)).bind fun _ => fun _ _ => trivial

theorem leads_updateItem {request : UpdateItemRequest}
    (ordered : (Request.updateItem request).Ordered) :
    (engine.updateItem request).Leads (Over store) fun _ _ => True := by
  refine Leads.still_bind (engine.still_table _) (engine.own_table _) fun table found => ?_
  refine Leads.still_bind (engine.still_planUpdate _ _ _ _ _ _)
    (engine.own_planUpdate _ _ _ _ _ _) fun plan planned => ?_
  have sound := planUpdate_sound planned (table_listed named found) ordered.1 ordered.2
  refine (leads_writeAlone quiet steady (ready plan sound)).bind fun images => ?_
  exact Leads.still_bind (still_updateAttributes _ _ _ _ _) (own_updateAttributes _ _ _ _ _)
    fun _ _ => fun _ _ => trivial

theorem leads_transactWrite {request : TransactWriteRequest}
    (ordered : (Request.transactWrite request).Ordered) :
    (engine.transactWrite request).Leads (Over store) fun _ _ => True := by
  refine Leads.still_bind (still_checkTransactionSize _) (own_checkTransactionSize _) fun _ _ => ?_
  refine Leads.still_bind (engine.still_planTransactWrites _ _)
    (engine.own_planTransactWrites _ _) fun plans planned => ?_
  intro session committed
  have sound := planTransactWrites_sound named ordered planned
  have prepared : ∀ plan ∈ plans, engine.Ready session.store plan := by
    rw [show session.store = store from committed]
    exact fun plan member => ready plan (sound plan member)
  obtain ⟨performed, performing, _⟩ :=
    perform_all quiet steady prepared (planTransactWrites_apart List.Pairwise.nil planned)
  rw [exec_open_steady steady, exec_bind_ok performing]
  refine Leads.ite ?_ ?_ performed (show Over performed.store performed from rfl)
  · intro session _
    rw [exec_bind_ok (exec_commit_steady steady session)]
    trivial
  · exact (leads_rollback steady).bind fun _ => fun _ _ => nofun

theorem leads_answer (readable : store.Readable) {request : Request} (ordered : request.Ordered) :
    (engine.answer request).Leads (Over store) fun _ _ => True := by
  cases request with
  | getItem request => exact (leads_getItem steady readable request).bind fun _ => Leads.pure _
  | query request =>
      refine Leads.bind ?_ fun _ => Leads.pure _
      exact Leads.still_bind (engine.still_planQuery _) (engine.own_planQuery _) fun plan _ =>
        leads_readPage steady readable plan _
  | scan request =>
      refine Leads.bind ?_ fun _ => Leads.pure _
      exact Leads.still_bind (engine.still_planScan _) (engine.own_planScan _) fun plan _ =>
        leads_readPage steady readable plan _
  | batchGet request => exact (leads_batchGet steady readable request).bind fun _ => Leads.pure _
  | transactGet request =>
      exact (leads_transactGet steady readable request).bind fun _ => Leads.pure _
  | putItem request =>
      exact (leads_putItem quiet steady named ready ordered).bind fun _ => Leads.pure _
  | deleteItem request =>
      exact (leads_deleteItem quiet steady named ready ordered).bind fun _ => Leads.pure _
  | updateItem request =>
      exact (leads_updateItem quiet steady named ready ordered).bind fun _ => Leads.pure _
  | batchWrite request =>
      exact Leads.of_own ((engine.own_batchWrite request).bind fun _ => FailsAs.pure _)
  | transactWrite request =>
      exact (leads_transactWrite quiet steady named ready ordered).bind fun _ => Leads.pure _

end Writes

end Engine
end ItemStore
