import ItemStore.Proofs.Engine.Keeping
import ItemStore.Proofs.Table.IndexRows

/-!
Which failures an action can end in. Once a plan has passed its checks, an unconditional put or
delete fails for the store or a hook alone, so that the same request may succeed later.
-/

namespace ItemStore

namespace Action

variable {α β : Type} {kind : Failure → Prop}

def FailsAs (kind : Failure → Prop) (action : Action α) : Prop :=
  ∀ session failure after, action.exec session = (.error failure, after) → kind failure

theorem FailsAs.pure (value : α) : (Pure.pure value : Action α).FailsAs kind :=
  fun _ _ _ failed => nomatch failed

theorem FailsAs.throw {failure : Failure} (fits : kind failure) :
    (MonadExcept.throw failure : Action α).FailsAs kind := by
  intro session other after failed
  cases failed
  exact fits

theorem FailsAs.get : (MonadState.get : Action Session).FailsAs kind :=
  fun _ _ _ failed => nomatch failed

theorem FailsAs.modify (change : Session → Session) :
    (modify change : Action PUnit).FailsAs kind :=
  fun _ _ _ failed => nomatch failed

theorem FailsAs.bind {action : Action α} {next : α → Action β} (first : action.FailsAs kind)
    (second : ∀ value, (next value).FailsAs kind) : (action >>= next).FailsAs kind := by
  intro session failure after failed
  rcases of_exec_bind_error failed with here | ⟨value, middle, _, later⟩
  · exact first session failure after here
  · exact second value middle failure after later

theorem FailsAs.forM {step : α → Action PUnit} {values : List α}
    (fails : ∀ value ∈ values, (step value).FailsAs kind) : (values.forM step).FailsAs kind := by
  induction values with
  | nil => exact FailsAs.pure _
  | cons value rest ih =>
      rw [List.forM]
      refine FailsAs.bind (fails value (List.mem_cons_self ..)) fun _ => ih ?_
      exact fun other member => fails other (List.mem_cons_of_mem _ member)

theorem FailsAs.ofExcept {ε : Type} {failure : ε → Failure} (fits : ∀ error, kind (failure error))
    (outcome : Except ε α) : (Action.ofExcept failure outcome).FailsAs kind := by
  cases outcome with
  | ok value => exact FailsAs.pure value
  | error error => exact FailsAs.throw (fits error)

theorem FailsAs.of_result {action : Action α} (fails : action.FailsAs kind) {failure : Failure}
    (failed : action.result = .error failure) : kind failure := by
  cases ran : action.exec (Session.ofStore .empty) with
  | mk outcome after =>
      have same : outcome = .error failure := by
        rw [← failed, result, ran]
      subst same
      exact fails _ failure after ran

def Ends (kind : Failure → Prop) (fits : α → Prop) (action : Action α) : Prop :=
  ∀ session, match (action.exec session).1 with
    | .ok value => fits value
    | .error failure => kind failure

theorem Ends.bind {action : Action α} {next : α → Action β} {fits : α → Prop} {later : β → Prop}
    (first : action.Ends kind fits) (second : ∀ value, fits value → (next value).Ends kind later) :
    (action >>= next).Ends kind later := by
  intro session
  have here := first session
  rw [exec_bind]
  cases ran : action.exec session with
  | mk outcome after =>
      rw [ran] at here
      cases outcome with
      | ok value => exact second value here after
      | error failure => exact here

theorem Ends.stop {action : Action α} {next : α → Action β} {fits : β → Prop}
    (never : action.Ends kind fun _ => False) : (action >>= next).Ends kind fits :=
  never.bind fun _ impossible => impossible.elim

theorem Ends.mono {action : Action α} {fits later : α → Prop} (ends : action.Ends kind fits)
    (weaker : ∀ value, fits value → later value) : action.Ends kind later := by
  intro session
  have here := ends session
  split <;> rename_i outcome <;> rw [outcome] at here
  · exact weaker _ here
  · exact here

theorem Ends.pure {value : α} {fits : α → Prop} (fit : fits value) :
    (Pure.pure value : Action α).Ends kind fits :=
  fun _ => fit

theorem Ends.foldlM {step : β → α → Action β} {values : List α} {fits : β → Prop}
    (each : ∀ value ∈ values, ∀ state, fits state → (step state value).Ends kind fits) :
    ∀ {state : β}, fits state → (values.foldlM step state).Ends kind fits := by
  induction values with
  | nil => exact fun fit => .pure fit
  | cons value rest ih =>
      intro state fit
      rw [List.foldlM_cons]
      exact (each value List.mem_cons_self state fit).bind fun next =>
        ih fun other member => each other (List.mem_cons_of_mem _ member)

theorem FailsAs.ends {action : Action α} (fails : action.FailsAs kind) :
    action.Ends kind fun _ => True := by
  intro session
  cases ran : action.exec session with
  | mk outcome after =>
      cases outcome with
      | ok value => trivial
      | error failure => exact fails session failure after ran

theorem Ends.any (action : Action α) : action.Ends (fun _ => True) fun _ => True :=
  FailsAs.ends fun _ _ _ _ => trivial

theorem Still.ends {action : Action α} (still : action.Still) (fails : action.FailsAs kind) :
    action.Ends kind fun value => action.result = .ok value := by
  intro session
  rw [still session]
  cases outcome : action.result with
  | ok value => rfl
  | error failure => exact fails.of_result outcome

theorem FailsAs.require {condition : Bool} (holds : condition = true) (fault : RequestFault) :
    (require condition fault).FailsAs kind := by
  rw [Action.require, if_pos holds]
  exact FailsAs.pure _

end Action

def Failure.MayPass (failure : Failure) : Prop :=
  failure.code.isRetryable = true

class Failure.AdmitsStore (kind : Failure → Prop) : Prop where
  store : kind .store

instance : Failure.AdmitsStore Failure.MayPass := ⟨rfl⟩

structure WritePlan.Unconditional (plan : WritePlan) : Prop where
  condition : plan.condition = none
  action : plan.action = .delete ∨ ∃ item, plan.action = .put item

namespace Engine

open Action

variable (engine : Engine)

section Store

variable {kind : Failure → Prop} [Failure.AdmitsStore kind]

theorem mayPass_call (call : StoreCall) (space : Option Space) :
    (engine.call call space).FailsAs kind := by
  rw [Engine.call]
  split
  · exact FailsAs.throw Failure.AdmitsStore.store
  · exact FailsAs.pure _

theorem mayPass_begin : engine.begin.FailsAs kind :=
  (engine.mayPass_call _ _).bind fun _ => FailsAs.modify _

theorem mayPass_commit : engine.commit.FailsAs kind :=
  (engine.mayPass_call _ _).bind fun _ => FailsAs.modify _

theorem mayPass_rollback : engine.rollback.FailsAs kind :=
  (engine.mayPass_call _ _).bind fun _ => FailsAs.modify _

theorem mayPass_putRow (space : Space) (key : RowKey) (document : Document) :
    (engine.putRow space key document).FailsAs kind :=
  (engine.mayPass_call _ _).bind fun _ => FailsAs.modify _

theorem mayPass_deleteRow (space : Space) (key : RowKey) :
    (engine.deleteRow space key).FailsAs kind :=
  (engine.mayPass_call _ _).bind fun _ => FailsAs.modify _

theorem mayPass_readDocument (document : Document) :
    (readDocument document).FailsAs kind := by
  rw [readDocument]
  split
  · exact FailsAs.pure _
  · exact FailsAs.throw Failure.AdmitsStore.store

theorem mayPass_load (table : Table) (key : RowKey) :
    (engine.load table key).FailsAs kind := by
  refine (engine.mayPass_call _ _).bind fun _ => FailsAs.get.bind fun session => ?_
  split
  · exact FailsAs.pure _
  · exact (mayPass_readDocument _).bind fun _ => FailsAs.pure _

end Store

theorem mayPass_notify (change : Change) :
    ∀ hooks : List Hook, (engine.notify change hooks).FailsAs Failure.MayPass
  | [] => FailsAs.pure _
  | hook :: rest => by
      refine FailsAs.get.bind fun session => FailsAs.bind ?_ fun _ => ?_
      · exact fun _ _ _ failed => nomatch failed
      · split
        · exact mayPass_notify change rest
        · exact FailsAs.throw rfl

theorem mayPass_announce (plan : WritePlan) (stored new : Option Item) :
    (engine.announce plan stored new).FailsAs Failure.MayPass := by
  rw [announce]
  split
  · exact FailsAs.pure _
  · exact engine.mayPass_notify _ _

theorem mayPass_putIndexRow (space : Space) (key : RowKey) (item : Item) :
    (engine.putIndexRow space key item).FailsAs Failure.MayPass :=
  (FailsAs.modify _).bind fun _ => engine.mayPass_putRow _ _ _

theorem mayPass_deleteIndexRow (space : Space) (key : RowKey) (item : Item) :
    (engine.deleteIndexRow space key item).FailsAs Failure.MayPass :=
  (engine.mayPass_deleteRow _ _).bind fun _ => FailsAs.modify _

theorem mayPass_writeBase {plan : WritePlan} {stored new : Option Item}
    (sized : ∀ item, new = some item → item.size ≤ maxItemSize) :
    (engine.writeBase plan stored new).FailsAs Failure.MayPass := by
  cases new with
  | some item =>
      have fits : decide ((Document.ofItem item).size ≤ maxItemSize) = true := by
        exact decide_eq_true (sized item rfl)
      exact (FailsAs.require fits _).bind fun _ => (engine.mayPass_putRow _ _ _).bind fun _ =>
        FailsAs.modify _
  | none =>
      cases stored with
      | none => exact FailsAs.modify _
      | some item => exact (engine.mayPass_deleteRow _ _).bind fun _ => FailsAs.modify _

theorem mayPass_maintainIndex {table : Table} {stored new : Option Item} {index : Index}
    (keyed : ∀ item, new = some item → ∃ key, index.rowKey? table item = .ok key) :
    (engine.maintainIndex table stored new index).FailsAs Failure.MayPass := by
  have formed : ∃ replacement, newIndexRow table index new = .ok replacement := by
    cases new with
    | none => exact ⟨none, rfl⟩
    | some item =>
        obtain ⟨key, found⟩ := keyed item rfl
        cases key <;> exact ⟨_, by simp only [newIndexRow, found]; rfl⟩
  obtain ⟨replacement, formed⟩ := formed
  simp only [maintainIndex, formed, Action.key, Action.ofExcept]
  refine FailsAs.bind (FailsAs.pure _) fun _ => ?_
  split
  · split
    · split
      · exact FailsAs.pure _
      · exact engine.mayPass_putIndexRow _ _ _
    · exact (engine.mayPass_deleteIndexRow _ _ _).bind fun _ => engine.mayPass_putIndexRow _ _ _
  · exact engine.mayPass_deleteIndexRow _ _ _
  · exact engine.mayPass_putIndexRow _ _ _
  · exact FailsAs.pure _

theorem mayPass_replace {plan : WritePlan} {stored new : Option Item}
    (sized : ∀ item, new = some item → item.size ≤ maxItemSize)
    (indexed : ∀ item, new = some item → plan.table.checkIndexKeys item = .ok ()) :
    (engine.replace plan stored new).FailsAs Failure.MayPass := by
  refine (engine.mayPass_writeBase sized).bind fun _ => FailsAs.bind (FailsAs.forM ?_) fun _ =>
    (engine.mayPass_announce _ _ _).bind fun _ => FailsAs.pure _
  intro index member
  refine engine.mayPass_maintainIndex fun item same => ?_
  exact Table.checkIndexKeys_iff.mp (indexed item same) index member

theorem mayPass_execute {plan : WritePlan} (prepared : plan.Prepared)
    (unconditional : plan.Unconditional) : (engine.execute plan).FailsAs Failure.MayPass := by
  refine (engine.mayPass_load _ _).bind fun stored => FailsAs.bind ?_ fun holds => ?_
  · rw [conditionHolds, unconditional.condition]
    exact FailsAs.pure _
  · split
    · rcases unconditional.action with delete | ⟨item, put⟩
      · simp only [delete]
        exact engine.mayPass_replace (by simp) (by simp)
      · obtain ⟨_, _, sized, indexed⟩ := prepared.put item put
        simp only [put]
        refine engine.mayPass_replace ?_ ?_
        · rintro _ ⟨rfl⟩
          exact sized
        · rintro _ ⟨rfl⟩
          exact indexed
    · exact (FailsAs.modify _).bind fun _ => FailsAs.pure _

theorem mayPass_executeAlone {plan : WritePlan} (prepared : plan.Prepared)
    (unconditional : plan.Unconditional) : (engine.executeAlone plan).FailsAs Failure.MayPass := by
  refine engine.mayPass_begin.bind fun _ =>
    (engine.mayPass_execute prepared unconditional).bind fun outcome => ?_
  cases outcome with
  | conditionFailed item => exact engine.mayPass_rollback.bind fun _ => FailsAs.pure _
  | applied old new => exact engine.mayPass_commit.bind fun _ => FailsAs.pure _
  | checked => exact engine.mayPass_commit.bind fun _ => FailsAs.pure _

theorem planBatchWrite_ok {table : Table} {request : BatchWrite} {plan : WritePlan}
    (ok : (engine.planBatchWrite table request).result = .ok plan) :
    plan.Prepared ∧ plan.Unconditional := by
  rw [planBatchWrite] at ok
  split at ok
  · obtain ⟨prepared, _, put, _, _, _, condition⟩ := planPut_ok ok
    exact ⟨prepared, condition rfl, Or.inr ⟨_, put⟩⟩
  · obtain ⟨prepared, _, delete, _, _, _, condition⟩ := planDelete_ok ok
    exact ⟨prepared, condition rfl, Or.inl delete⟩
  · cases ok

theorem planBatchWrites_ok {requests : List (Table × BatchWrite)} {writes : List PlannedWrite}
    (ok : (engine.planBatchWrites [] requests).result = .ok writes) :
    ∀ write ∈ writes, write.plan.Prepared ∧ write.plan.Unconditional := by
  intro write member
  rcases engine.of_mem_planBatchWrites ok member with none | ⟨request, _, planned⟩
  · cases none
  · exact engine.planBatchWrite_ok planned

end Engine
end ItemStore
