import ItemStore.Proofs.Engine.Plans
import ItemStore.Proofs.Store.Undo

/-!
Up to its commit, a request keeps what is committed: every row it writes, and every row a hook
writes, goes through the log of the open transaction.
-/

namespace ItemStore

namespace Session

@[simp] theorem store_ofStore (store : Store) : (ofStore store).store = store := rfl

end Session

namespace Engine

open Action

variable (engine : Engine)

theorem still_call (call : StoreCall) (space : Option Space) : (engine.call call space).Still :=
  Still.ite (Still.throw _) (Still.pure _)

theorem exec_call_ok {call : StoreCall} {space : Option Space} {session after : Session}
    (ok : (engine.call call space).exec session = (.ok (), after)) : after = session := by
  rw [engine.still_call call space session] at ok
  exact (congrArg Prod.snd ok).symm

theorem keeps_begin : engine.begin.Keeps :=
  (engine.still_call _ _).keeps.bind fun _ => fun _ => rfl

theorem keeps_rollback : engine.rollback.Keeps :=
  (engine.still_call _ _).keeps.bind fun _ => fun _ => rfl

theorem keeps_putRow (space : Space) (key : RowKey) (document : Document) :
    (engine.putRow space key document).Keeps :=
  (engine.still_call _ _).keeps.bind fun _ => fun session =>
    session.transaction.rollback_put space key document

theorem keeps_deleteRow (space : Space) (key : RowKey) : (engine.deleteRow space key).Keeps :=
  (engine.still_call _ _).keeps.bind fun _ => fun session =>
    session.transaction.rollback_delete space key

theorem keeps_queryRows (space : Space) (range : RangeQuery) :
    (engine.queryRows space range).Keeps :=
  (engine.still_call _ _).keeps.bind fun _ => Keeps.get.bind fun _ => (Still.pure _).keeps

theorem keeps_chargeRead (space : Space) (bytes : Nat) : (chargeRead space bytes).Keeps :=
  fun _ => rfl

theorem keeps_chargeWrite (space : Space) (bytes : Nat) : (chargeWrite space bytes).Keeps :=
  fun _ => rfl

theorem keeps_clearLedger : clearLedger.Keeps := fun _ => rfl

theorem still_readDocument (document : Document) : (readDocument document).Still := by
  rw [readDocument]
  split
  · exact Still.pure _
  · exact Still.throw _

theorem keeps_load (table : Table) (key : RowKey) : (engine.load table key).Keeps := by
  refine (engine.still_call _ _).keeps.bind fun _ => Keeps.get.bind fun session => ?_
  split
  · exact (Still.pure _).keeps
  · exact ((still_readDocument _).bind fun _ => Still.pure _).keeps

theorem keeps_find (plan : ReadPlan) : (engine.find plan).Keeps :=
  (engine.keeps_load _ _).bind fun _ => (keeps_chargeRead _ _).bind fun _ => (Still.pure _).keeps

theorem still_projectFound (plan : ReadPlan) (found : Option Item) :
    (projectFound plan found).Still := by
  cases found with
  | none => exact Still.pure _
  | some item => exact (still_projected _ _ _).bind fun _ => Still.pure _

theorem keeps_fetch (plan : ReadPlan) : (engine.fetch plan).Keeps :=
  (engine.keeps_find plan).bind fun _ => (still_projectFound _ _).keeps

theorem keeps_notify (change : Change) : ∀ hooks : List Hook, (engine.notify change hooks).Keeps
  | [] => (Still.pure _).keeps
  | hook :: rest => by
      intro session
      have hooked := (hook change).rollback_run engine.faults session.transaction
      simp only [notify, exec_bind, exec_get, exec_set]
      split
      · exact (keeps_notify change rest _).trans hooked
      · exact hooked

theorem still_updatedItem (plan : WritePlan) (update : Update) (current : Option Item) :
    (updatedItem plan update current).Still :=
  (Still.expression _).bind fun _ => (Still.value _).bind fun _ => (Still.key _).bind fun _ =>
    Still.pure _

theorem still_conditionHolds (plan : WritePlan) (current : Option Item) :
    (conditionHolds plan current).Still := by
  rw [conditionHolds]
  split
  · exact Still.pure _
  · exact Still.expression _

theorem still_updatedParts (update : Update) (bindings : Bindings) (image : Option Item) :
    (updatedParts update bindings image).Still := by
  cases image with
  | none => exact Still.pure _
  | some item => exact (still_projected _ _ _).bind fun _ => Still.pure _

theorem still_updateAttributes (returnValues : ReturnValues) (update : Update)
    (bindings : Bindings) (old new : Option Item) :
    (updateAttributes returnValues update bindings old new).Still := by
  cases returnValues with
  | none => exact Still.pure _
  | allOld => exact Still.pure _
  | allNew => exact Still.pure _
  | updatedOld => exact still_updatedParts _ _ _
  | updatedNew => exact still_updatedParts _ _ _

theorem keeps_writeBase (plan : WritePlan) (stored new : Option Item) :
    (engine.writeBase plan stored new).Keeps := by
  cases new with
  | some item =>
      exact (Still.require _ _).keeps.bind fun _ => (engine.keeps_putRow _ _ _).bind fun _ =>
        keeps_chargeWrite _ _
  | none =>
      cases stored with
      | none => exact keeps_chargeWrite _ _
      | some item => exact (engine.keeps_deleteRow _ _).bind fun _ => keeps_chargeWrite _ _

theorem keeps_putIndexRow (space : Space) (key : RowKey) (item : Item) :
    (engine.putIndexRow space key item).Keeps :=
  (keeps_chargeWrite _ _).bind fun _ => engine.keeps_putRow _ _ _

theorem keeps_deleteIndexRow (space : Space) (key : RowKey) (item : Item) :
    (engine.deleteIndexRow space key item).Keeps :=
  (engine.keeps_deleteRow _ _).bind fun _ => keeps_chargeWrite _ _

theorem keeps_maintainIndex (table : Table) (stored new : Option Item) (index : Index) :
    (engine.maintainIndex table stored new index).Keeps := by
  refine (Still.key _).keeps.bind fun replacement => ?_
  split
  · split
    · split
      · exact (Still.pure _).keeps
      · exact engine.keeps_putIndexRow _ _ _
    · exact (engine.keeps_deleteIndexRow _ _ _).bind fun _ => engine.keeps_putIndexRow _ _ _
  · exact engine.keeps_deleteIndexRow _ _ _
  · exact engine.keeps_putIndexRow _ _ _
  · exact (Still.pure _).keeps

theorem keeps_announce (plan : WritePlan) (stored new : Option Item) :
    (engine.announce plan stored new).Keeps := by
  rw [announce]
  split
  · exact (Still.pure _).keeps
  · exact engine.keeps_notify _ _

theorem keeps_replace (plan : WritePlan) (stored new : Option Item) :
    (engine.replace plan stored new).Keeps :=
  (engine.keeps_writeBase _ _ _).bind fun _ =>
    (Keeps.forM (engine.keeps_maintainIndex _ _ _) _).bind fun _ =>
      (engine.keeps_announce _ _ _).bind fun _ => (Still.pure _).keeps

theorem keeps_execute (plan : WritePlan) : (engine.execute plan).Keeps := by
  refine (engine.keeps_load _ _).bind fun stored => (still_conditionHolds _ _).keeps.bind
    fun holds => ?_
  split
  · split
    · exact (keeps_chargeRead _ _).bind fun _ => (Still.pure _).keeps
    · exact engine.keeps_replace _ _ _
    · exact (still_updatedItem _ _ _).keeps.bind fun _ => engine.keeps_replace _ _ _
    · exact engine.keeps_replace _ _ _
  · exact (keeps_chargeWrite _ _).bind fun _ => (Still.pure _).keeps

/-! Requests that only read. -/

theorem keeps_consumed (detail : Option CapacityDetail) (table : String) :
    (consumed detail table).Keeps := fun _ => rfl

theorem keeps_consumedAll (detail : Option CapacityDetail) : (consumedAll detail).Keeps :=
  fun _ => rfl

theorem keeps_getItem (request : GetItemRequest) : (engine.getItem request).Keeps :=
  (engine.still_planGet _ _ _ _).keeps.bind fun _ => keeps_clearLedger.bind fun _ =>
    engine.keeps_begin.bind fun _ => (engine.keeps_find _).bind fun _ =>
      engine.keeps_rollback.bind fun _ => (still_projectFound _ _).keeps.bind fun _ =>
        (keeps_consumed _ _).bind fun _ => (Still.pure _).keeps

theorem still_pageIndex (table : Table) (name : Option String) : (pageIndex table name).Still := by
  cases name with
  | none => exact Still.pure _
  | some name =>
      rw [pageIndex]
      split
      · exact Still.pure _
      · exact Still.refuse _

theorem still_checkSelect (select : Option Select) (projects onIndex : Bool) :
    (checkSelect select projects onIndex).Still := by
  rw [checkSelect.eq_def]
  split
  · exact Still.pure _
  · exact Still.require _ _
  · exact (Still.require _ _).bind fun _ => Still.require _ _
  · exact Still.require _ _

theorem still_pageSize (limit : Option Int) : (engine.pageSize limit).Still := by
  cases limit with
  | none => exact Still.pure _
  | some limit => exact Still.ite (Still.refuse _) (Still.pure _)

theorem still_startKey (space : Space) (token : Option String) : (startKey space token).Still := by
  cases token with
  | none => exact Still.pure _
  | some token => exact (Still.ofExcept _ _).bind fun _ => Still.pure _

theorem still_parseKeyCondition (text : Option String) : (parseKeyCondition text).Still := by
  cases text with
  | none => exact Still.refuse _
  | some text => exact Still.expression _

theorem still_passes (filter : Option Condition) (bindings : Bindings) (item : Item) :
    (passes filter bindings item).Still := by
  cases filter with
  | none => exact Still.pure _
  | some condition => exact Still.expression _

theorem still_addRow (plan : PagePlan) (page : Page) (row : Row) :
    (engine.addRow plan page row).Still := by
  refine (still_readDocument _).bind fun item => ?_
  split
  · exact Still.pure _
  · refine (still_passes _ _ _).bind fun passed => ?_
    split
    · split
      · exact Still.pure _
      · exact (still_projected _ _ _).bind fun _ => Still.pure _
    · exact Still.pure _

theorem keeps_readPage (plan : PagePlan) (detail : Option CapacityDetail) :
    (engine.readPage plan detail).Keeps :=
  keeps_clearLedger.bind fun _ => engine.keeps_begin.bind fun _ =>
    (engine.keeps_queryRows _ _).bind fun _ => engine.keeps_rollback.bind fun _ =>
      (Still.foldlM (engine.still_addRow plan) _ _).keeps.bind fun _ =>
        (keeps_chargeRead _ _).bind fun _ => (keeps_consumed _ _).bind fun _ =>
          (Still.pure _).keeps

theorem still_planQuery (request : QueryRequest) : (engine.planQuery request).Still :=
  (engine.still_table _).bind fun _ => (still_pageIndex _ _).bind fun _ =>
    (still_checkSelect _ _ _).bind fun _ => (engine.still_pageSize _).bind fun _ =>
      (still_parseKeyCondition _).bind fun _ => (still_parseCondition _).bind fun _ =>
        (still_parseProjection _).bind fun _ => (engine.still_checkPlaceholders _ _ _).bind fun _ =>
          (Still.expression _).bind fun _ => (still_startKey _ _).bind fun _ =>
            (Still.require _ _).bind fun _ => Still.pure _

theorem still_planScan (request : ScanRequest) : (engine.planScan request).Still :=
  (engine.still_table _).bind fun _ => (still_pageIndex _ _).bind fun _ =>
    (still_checkSelect _ _ _).bind fun _ => (engine.still_pageSize _).bind fun _ =>
      (still_parseCondition _).bind fun _ => (still_parseProjection _).bind fun _ =>
        (engine.still_checkPlaceholders _ _ _).bind fun _ =>
          (still_startKey _ _).bind fun _ => Still.pure _

theorem keeps_query (request : QueryRequest) : (engine.query request).Keeps :=
  (engine.still_planQuery request).keeps.bind fun _ => engine.keeps_readPage _ _

theorem keeps_scan (request : ScanRequest) : (engine.scan request).Keeps :=
  (engine.still_planScan request).keeps.bind fun _ => engine.keeps_readPage _ _

theorem keeps_fetchAll (table : String) (plans : List ReadPlan) :
    (engine.fetchAll table plans).Keeps :=
  (Keeps.mapM engine.keeps_fetch _).bind fun _ => (Still.pure _).keeps

theorem keeps_batchGet (request : BatchGetRequest) : (engine.batchGet request).Keeps := by
  refine (Still.require _ _).keeps.bind fun _ => (Still.require _ _).keeps.bind fun _ => ?_
  refine (Still.mapM (fun _ => (engine.still_planKeys _ _).bind fun _ => Still.pure _) _).keeps.bind
    fun _ => ?_
  exact keeps_clearLedger.bind fun _ => engine.keeps_begin.bind fun _ =>
    (Keeps.mapM (fun _ => engine.keeps_fetchAll _ _) _).bind fun _ =>
      engine.keeps_rollback.bind fun _ => (keeps_consumedAll _).bind fun _ => (Still.pure _).keeps

theorem still_checkTransactionSize (count : Nat) : (checkTransactionSize count).Still :=
  (Still.require _ _).bind fun _ => Still.require _ _

theorem keeps_transactGet (request : TransactGetRequest) : (engine.transactGet request).Keeps :=
  (still_checkTransactionSize _).keeps.bind fun _ =>
    (Still.mapM (fun _ => engine.still_planGet _ _ _ _) _).keeps.bind fun _ =>
      keeps_clearLedger.bind fun _ => engine.keeps_begin.bind fun _ =>
        (Keeps.mapM engine.keeps_fetch _).bind fun _ => engine.keeps_rollback.bind fun _ =>
          Keeps.bind (fun _ => rfl) fun _ => (keeps_consumedAll _).bind fun _ =>
            (Still.pure _).keeps

end Engine
end ItemStore
