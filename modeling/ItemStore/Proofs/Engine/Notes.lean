import ItemStore.Proofs.Engine.Effects

/-!
What hooks note in the course of an action comes after what they noted before it. A read notes
nothing, and a planned write only what is about its own item, whether it succeeds or not.
-/

namespace ItemStore

/-- A hook that notes each change it is told of. It may read, but it neither writes nor fails. -/
def Hook.Observes (hook : Hook) : Prop :=
  ∀ faults change transaction,
    (hook change).run faults transaction = ⟨.ok (), transaction, [change]⟩

def Engine.Observed (engine : Engine) : Prop :=
  ∃ hook, engine.hooks = [hook] ∧ hook.Observes

theorem Engine.Observed.quiet {engine : Engine} (observed : engine.Observed) :
    ∀ hook ∈ engine.hooks, hook.Quiet := by
  obtain ⟨observer, only, observes⟩ := observed
  intro hook member faults change transaction
  rw [only, List.mem_singleton] at member
  rw [member, observes]

structure Change.IsOf (plan : WritePlan) (change : Change) : Prop where
  table : change.table = plan.table.name
  keys : change.keys = plan.keyItem

namespace Action

variable {α β : Type} {kind : Change → Prop}

/-- The action adds to the journal, and only changes of a kind. -/
def Notes (kind : Change → Prop) (action : Action α) : Prop :=
  ∀ session, ∃ noted, (action.exec session).2.journal = session.journal ++ noted ∧
    ∀ change ∈ noted, kind change

theorem notes_of_same {action : Action α}
    (same : ∀ session, (action.exec session).2.journal = session.journal) : action.Notes kind :=
  fun session => ⟨[], (same session).trans (List.append_nil _).symm, List.forall_mem_nil _⟩

theorem Still.notes {action : Action α} (still : action.Still) : action.Notes kind :=
  notes_of_same fun session => by rw [still session]

theorem Notes.get : (MonadState.get : Action Session).Notes kind :=
  notes_of_same fun _ => rfl

theorem Notes.modify {change : Session → Session}
    (same : ∀ session, (change session).journal = session.journal) :
    (modify change : Action PUnit).Notes kind :=
  notes_of_same same

theorem Notes.bind {action : Action α} {next : α → Action β} (first : action.Notes kind)
    (second : ∀ value, (next value).Notes kind) : (action >>= next).Notes kind := by
  intro session
  obtain ⟨early, noted, fits⟩ := first session
  cases ran : action.exec session with
  | mk outcome after =>
      rw [ran] at noted
      cases outcome with
      | error failure =>
          rw [exec_bind_error ran]
          exact ⟨early, noted, fits⟩
      | ok value =>
          rw [exec_bind_ok ran]
          obtain ⟨late, more, alsoFits⟩ := second value after
          refine ⟨early ++ late, ?_, List.forall_mem_append.mpr ⟨fits, alsoFits⟩⟩
          rw [more, noted, List.append_assoc]

theorem Notes.forM {step : α → Action PUnit} (notes : ∀ value, (step value).Notes kind) :
    ∀ values : List α, (values.forM step).Notes kind
  | [] => (Still.pure _).notes
  | value :: rest => (notes value).bind fun _ => Notes.forM notes rest

theorem Notes.mapM {step : α → Action β} (notes : ∀ value, (step value).Notes kind) :
    ∀ values : List α, (values.mapM step).Notes kind
  | [] => (Still.pure _).notes
  | value :: rest => by
      rw [List.mapM_cons]
      exact (notes value).bind fun _ => (Notes.mapM notes rest).bind fun _ => (Still.pure _).notes

theorem Notes.journal_eq {action : Action α} (silent : action.Notes fun _ => False)
    {session after : Session} {outcome : Except Failure α}
    (ran : action.exec session = (outcome, after)) : after.journal = session.journal := by
  obtain ⟨noted, journal, none⟩ := silent session
  rw [ran, List.eq_nil_iff_forall_not_mem.mpr none, List.append_nil] at journal
  exact journal

end Action

namespace Engine

open Action

variable {engine : Engine} {kind : Change → Prop}

/-! Steps that tell hooks nothing. -/

theorem notes_begin : engine.begin.Notes kind :=
  (engine.still_call _ _).notes.bind fun _ => Notes.modify fun _ => rfl

theorem notes_commit : engine.commit.Notes kind :=
  (engine.still_call _ _).notes.bind fun _ => Notes.modify fun _ => rfl

theorem notes_rollback : engine.rollback.Notes kind :=
  (engine.still_call _ _).notes.bind fun _ => Notes.modify fun _ => rfl

theorem notes_putRow (space : Space) (key : RowKey) (document : Document) :
    (engine.putRow space key document).Notes kind :=
  (engine.still_call _ _).notes.bind fun _ => Notes.modify fun _ => rfl

theorem notes_deleteRow (space : Space) (key : RowKey) : (engine.deleteRow space key).Notes kind :=
  (engine.still_call _ _).notes.bind fun _ => Notes.modify fun _ => rfl

theorem notes_queryRows (space : Space) (range : RangeQuery) :
    (engine.queryRows space range).Notes kind :=
  (engine.still_call _ _).notes.bind fun _ => Notes.get.bind fun _ => (Still.pure _).notes

theorem notes_chargeRead (space : Space) (bytes : Nat) : (chargeRead space bytes).Notes kind :=
  Notes.modify fun _ => rfl

theorem notes_chargeWrite (space : Space) (bytes : Nat) : (chargeWrite space bytes).Notes kind :=
  Notes.modify fun _ => rfl

theorem notes_scaleCharges (factor : Nat) : (scaleCharges factor).Notes kind :=
  Notes.modify fun _ => rfl

theorem notes_clearLedger : clearLedger.Notes kind :=
  Notes.modify fun _ => rfl

theorem notes_consumed (detail : Option CapacityDetail) (table : String) :
    (consumed detail table).Notes kind :=
  Notes.get.bind fun _ => (Still.pure _).notes

theorem notes_consumedAll (detail : Option CapacityDetail) : (consumedAll detail).Notes kind :=
  Notes.get.bind fun _ => (Still.pure _).notes

theorem notes_load (table : Table) (key : RowKey) : (engine.load table key).Notes kind := by
  refine (engine.still_call _ _).notes.bind fun _ => Notes.get.bind fun session => ?_
  split
  · exact (Still.pure _).notes
  · exact ((still_readDocument _).bind fun _ => Still.pure _).notes

/-! Reads. -/

theorem notes_find (plan : ReadPlan) : (engine.find plan).Notes kind :=
  (notes_load _ _).bind fun _ => (notes_chargeRead _ _).bind fun _ => (Still.pure _).notes

theorem notes_fetch (plan : ReadPlan) : (engine.fetch plan).Notes kind :=
  (notes_find plan).bind fun _ => (still_projectFound _ _).notes

theorem notes_getItem (request : GetItemRequest) : (engine.getItem request).Notes kind :=
  (engine.still_planGet _ _ _ _).notes.bind fun _ => notes_clearLedger.bind fun _ =>
    notes_begin.bind fun _ => (notes_find _).bind fun _ => notes_rollback.bind fun _ =>
      (still_projectFound _ _).notes.bind fun _ => (notes_consumed _ _).bind fun _ =>
        (Still.pure _).notes

theorem notes_readPage (plan : PagePlan) (detail : Option CapacityDetail) :
    (engine.readPage plan detail).Notes kind :=
  notes_clearLedger.bind fun _ => notes_begin.bind fun _ => (notes_queryRows _ _).bind fun _ =>
    notes_rollback.bind fun _ => (Still.foldlM (engine.still_addRow plan) _ _).notes.bind fun _ =>
      (notes_chargeRead _ _).bind fun _ => (notes_consumed _ _).bind fun _ => (Still.pure _).notes

theorem notes_query (request : QueryRequest) : (engine.query request).Notes kind :=
  (engine.still_planQuery request).notes.bind fun _ => notes_readPage _ _

theorem notes_scan (request : ScanRequest) : (engine.scan request).Notes kind :=
  (engine.still_planScan request).notes.bind fun _ => notes_readPage _ _

theorem notes_fetchAll (table : String) (plans : List ReadPlan) :
    (engine.fetchAll table plans).Notes kind :=
  (Notes.mapM notes_fetch _).bind fun _ => (Still.pure _).notes

theorem notes_batchGet (request : BatchGetRequest) : (engine.batchGet request).Notes kind := by
  refine (Still.require _ _).notes.bind fun _ => (Still.require _ _).notes.bind fun _ => ?_
  refine (Still.mapM (fun _ => (engine.still_planKeys _ _).bind fun _ => Still.pure _) _).notes.bind
    fun _ => ?_
  exact notes_clearLedger.bind fun _ => notes_begin.bind fun _ =>
    (Notes.mapM (fun _ => notes_fetchAll _ _) _).bind fun _ => notes_rollback.bind fun _ =>
      (notes_consumedAll _).bind fun _ => (Still.pure _).notes

theorem notes_transactGet (request : TransactGetRequest) :
    (engine.transactGet request).Notes kind :=
  (still_checkTransactionSize _).notes.bind fun _ =>
    (Still.mapM (fun _ => engine.still_planGet _ _ _ _) _).notes.bind fun _ =>
      notes_clearLedger.bind fun _ => notes_begin.bind fun _ =>
        (Notes.mapM notes_fetch _).bind fun _ => notes_rollback.bind fun _ =>
          (notes_scaleCharges _).bind fun _ => (notes_consumedAll _).bind fun _ =>
            (Still.pure _).notes

/-! Writes. -/

theorem notes_writeBase (plan : WritePlan) (stored new : Option Item) :
    (engine.writeBase plan stored new).Notes kind := by
  cases new with
  | some item =>
      exact (Still.require _ _).notes.bind fun _ => (notes_putRow _ _ _).bind fun _ =>
        notes_chargeWrite _ _
  | none =>
      cases stored with
      | none => exact notes_chargeWrite _ _
      | some item => exact (notes_deleteRow _ _).bind fun _ => notes_chargeWrite _ _

theorem notes_putIndexRow (space : Space) (key : RowKey) (item : Item) :
    (engine.putIndexRow space key item).Notes kind :=
  (notes_chargeWrite _ _).bind fun _ => notes_putRow _ _ _

theorem notes_deleteIndexRow (space : Space) (key : RowKey) (item : Item) :
    (engine.deleteIndexRow space key item).Notes kind :=
  (notes_deleteRow _ _).bind fun _ => notes_chargeWrite _ _

theorem notes_maintainIndex (table : Table) (stored new : Option Item) (index : Index) :
    (engine.maintainIndex table stored new index).Notes kind := by
  refine (Still.key _).notes.bind fun replacement => ?_
  split
  · split
    · split
      · exact (Still.pure _).notes
      · exact notes_putIndexRow _ _ _
    · exact (notes_deleteIndexRow _ _ _).bind fun _ => notes_putIndexRow _ _ _
  · exact notes_deleteIndexRow _ _ _
  · exact notes_putIndexRow _ _ _
  · exact (Still.pure _).notes

def changeBetween (plan : WritePlan) (stored new : Option Item) : List Change :=
  match ChangeKind.between? stored.isSome new.isSome with
  | none => []
  | some kind => [⟨plan.table.name, kind, plan.keyItem, stored, new⟩]

theorem isOf_of_mem_changeBetween {plan : WritePlan} {stored new : Option Item} {change : Change}
    (member : change ∈ changeBetween plan stored new) : change.IsOf plan := by
  rw [changeBetween] at member
  split at member
  · cases member
  · rw [List.mem_singleton.mp member]
    exact ⟨rfl, rfl⟩

section Observed

variable (observed : engine.Observed)

include observed

theorem exec_announce (plan : WritePlan) (stored new : Option Item) (session : Session) :
    (engine.announce plan stored new).exec session =
      (.ok (), { session with journal := session.journal ++ changeBetween plan stored new }) := by
  obtain ⟨hook, only, observes⟩ := observed
  rw [announce, changeBetween]
  cases ChangeKind.between? stored.isSome new.isSome with
  | none =>
      rw [List.append_nil]
      rfl
  | some kind =>
      let change : Change := ⟨plan.table.name, kind, plan.keyItem, stored, new⟩
      have noted := observes engine.faults change session.transaction
      simp only [only, notify, exec_bind, exec_get, exec_set]
      rw [show (hook change).run engine.faults session.transaction = _ from noted]
      rfl

theorem notes_replace (plan : WritePlan) (stored new : Option Item) :
    (engine.replace plan stored new).Notes (Change.IsOf plan) := by
  refine (notes_writeBase plan stored new).bind fun _ =>
    (Notes.forM (notes_maintainIndex plan.table stored new) _).bind fun _ =>
      Notes.bind (fun session => ?_) fun _ => (Still.pure _).notes
  rw [exec_announce observed]
  exact ⟨_, rfl, fun _ => isOf_of_mem_changeBetween⟩

theorem notes_execute (plan : WritePlan) : (engine.execute plan).Notes (Change.IsOf plan) := by
  refine (notes_load _ _).bind fun stored => (still_conditionHolds _ _).notes.bind fun holds => ?_
  split
  · split
    · exact (notes_chargeRead _ _).bind fun _ => (Still.pure _).notes
    · exact notes_replace observed _ _ _
    · exact (still_updatedItem _ _ _).notes.bind fun _ => notes_replace observed _ _ _
    · exact notes_replace observed _ _ _
  · exact (notes_chargeWrite _ _).bind fun _ => (Still.pure _).notes

theorem notes_executeAlone (plan : WritePlan) :
    (engine.executeAlone plan).Notes (Change.IsOf plan) := by
  refine notes_begin.bind fun _ => (notes_execute observed plan).bind fun outcome => ?_
  cases outcome with
  | applied old new => exact notes_commit.bind fun _ => (Still.pure _).notes
  | checked => exact notes_commit.bind fun _ => (Still.pure _).notes
  | conditionFailed item => exact notes_rollback.bind fun _ => (Still.pure _).notes

end Observed

end Engine
end ItemStore
