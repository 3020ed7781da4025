import ItemStore.Proofs.Engine.Actions

/-!
What plans promise. Planning looks at the request and the tables alone, and a plan that comes out
of it has passed every check that does not depend on what is stored.
-/

namespace ItemStore

/-- What has been checked of a write plan before the store is touched. -/
structure WritePlan.Prepared (plan : WritePlan) : Prop where
  key : plan.table.rowKey plan.keyItem = .ok plan.key
  put : ∀ item, plan.action = .put item → plan.table.rowKey item = .ok plan.key ∧
    item.validate = .ok () ∧ item.size ≤ maxItemSize ∧ plan.table.checkIndexKeys item = .ok ()
  update : ∀ update, plan.action = .update update →
    update.validate plan.bindings plan.table.keyNames = .ok ()

namespace Engine

open Action

variable (engine : Engine)

theorem still_table (name : String) : (engine.table name).Still := by
  rw [Engine.table]
  split
  · exact Still.pure _
  · exact Still.throw _

theorem still_checkPlaceholders {α : Type} (used : Placeholders) (names : Dict String String)
    (values : Dict String α) : (engine.checkPlaceholders used names values).Still :=
  Still.ite (Still.expression _) (Still.pure _)

theorem still_parseProjection (text : Option String) : (parseProjection text).Still := by
  cases text with
  | none => exact Still.pure _
  | some text => exact (Still.expression _).bind fun _ => Still.pure _

theorem still_parseCondition (text : Option String) : (parseCondition text).Still := by
  cases text with
  | none => exact Still.pure _
  | some text => exact (Still.expression _).bind fun _ => Still.pure _

theorem still_parsePaths (text : Option String) (names : Dict String String) :
    (engine.parsePaths text names).Still :=
  (still_parseProjection text).bind fun _ =>
    (engine.still_checkPlaceholders _ _ _).bind fun _ => Still.pure _

theorem still_projected (paths : Option (List Path)) (bindings : Bindings) (item : Item) :
    (projected paths bindings item).Still := by
  cases paths with
  | none => exact Still.pure _
  | some paths => exact Still.expression _

theorem still_keyOf (table : Table) (key : Item) : (keyOf table key).Still :=
  (Still.key _).bind fun _ => Still.key _

theorem still_planGet (table : String) (key : Item) (projection : Option String)
    (names : Dict String String) : (engine.planGet table key projection names).Still :=
  (engine.still_table _).bind fun _ => (still_keyOf _ _).bind fun _ =>
    (engine.still_parsePaths _ _).bind fun _ => Still.pure _

theorem still_checkBindings (used : Placeholders) (bindings : Bindings) :
    (engine.checkBindings used bindings).Still :=
  (engine.still_checkPlaceholders _ _ _).bind fun _ => Still.value _

theorem still_planPut (table : Table) (item : Item) (condition : Option String)
    (bindings : Bindings) (returnsOld : Bool) :
    (engine.planPut table item condition bindings returnsOld).Still :=
  (Still.value _).bind fun _ => (Still.key _).bind fun _ => (Still.require _ _).bind fun _ =>
    (Still.key _).bind fun _ => (still_parseCondition _).bind fun _ =>
      (engine.still_checkBindings _ _).bind fun _ => Still.pure _

theorem still_parseUpdate (text : Option String) : (parseUpdate text).Still := by
  cases text with
  | none => exact Still.pure _
  | some text => exact Still.expression _

theorem still_planUpdate (table : Table) (key : Item) (update condition : Option String)
    (bindings : Bindings) (returnsOld : Bool) :
    (engine.planUpdate table key update condition bindings returnsOld).Still :=
  (still_keyOf _ _).bind fun _ => (still_parseUpdate _).bind fun _ =>
    (still_parseCondition _).bind fun _ => (Still.expression _).bind fun _ =>
      (engine.still_checkBindings _ _).bind fun _ => Still.pure _

theorem still_planDelete (table : Table) (key : Item) (condition : Option String)
    (bindings : Bindings) (returnsOld : Bool) :
    (engine.planDelete table key condition bindings returnsOld).Still :=
  (still_keyOf _ _).bind fun _ => (still_parseCondition _).bind fun _ =>
    (engine.still_checkBindings _ _).bind fun _ => Still.pure _

theorem still_planCheck (table : Table) (key : Item) (condition : String) (bindings : Bindings)
    (returnsOld : Bool) : (engine.planCheck table key condition bindings returnsOld).Still :=
  (still_keyOf _ _).bind fun _ => (Still.expression _).bind fun _ =>
    (engine.still_checkBindings _ _).bind fun _ => Still.pure _

theorem still_planTransactWrite (request : TransactWrite) :
    (engine.planTransactWrite request).Still := by
  rw [Engine.planTransactWrite]
  split
  · exact (engine.still_table _).bind fun _ => engine.still_planCheck _ _ _ _ _
  · exact (engine.still_table _).bind fun _ => engine.still_planPut _ _ _ _ _
  · exact (engine.still_table _).bind fun _ => engine.still_planDelete _ _ _ _ _
  · exact (engine.still_table _).bind fun _ => engine.still_planUpdate _ _ _ _ _ _
  · exact Still.refuse _

theorem still_planTransactWrites :
    ∀ (requests : List TransactWrite) (planned : List WritePlan),
      (engine.planTransactWrites planned requests).Still
  | [], _ => Still.pure _
  | request :: rest, _ =>
      (engine.still_planTransactWrite request).bind fun _ => (Still.require _ _).bind fun _ =>
        still_planTransactWrites rest _

theorem still_planBatchWrite (table : Table) (request : BatchWrite) :
    (engine.planBatchWrite table request).Still := by
  rw [Engine.planBatchWrite]
  split
  · exact engine.still_planPut _ _ _ _ _
  · exact engine.still_planDelete _ _ _ _ _
  · exact Still.refuse _

theorem still_planBatchWrites :
    ∀ (requests : List (Table × BatchWrite)) (planned : List PlannedWrite),
      (engine.planBatchWrites planned requests).Still
  | [], _ => Still.pure _
  | (table, request) :: rest, _ =>
      (engine.still_planBatchWrite table request).bind fun _ => (Still.require _ _).bind fun _ =>
        still_planBatchWrites rest _

theorem still_distinctKeys (table : Table) :
    ∀ (keys : List Item) (seen : List RowKey), (distinctKeys table seen keys).Still
  | [], _ => Still.pure _
  | key :: rest, _ =>
      (still_keyOf table key).bind fun _ => (Still.require _ _).bind fun _ =>
        still_distinctKeys table rest _

theorem still_planKeys (table : Table) (request : KeysRequest) :
    (engine.planKeys table request).Still :=
  (engine.still_parsePaths _ _).bind fun _ => (still_distinctKeys _ _ _).bind fun _ => Still.pure _

end Engine

theorem Table.mem_keyNames {table : Table} {name : String} :
    name ∈ table.keyNames ↔ table.isKeyAttribute name = true := by
  simp only [keyNames, isKeyAttribute, List.mem_cons, Option.mem_toList, Bool.or_eq_true,
    beq_iff_eq]
  exact or_congr_left eq_comm

theorem Table.rowKey_of_parts {table : Table} {a b : Item}
    (same : ∀ name ∈ table.keyNames, keyPart a name = keyPart b name) :
    table.rowKey a = table.rowKey b := by
  rw [rowKey, rowKey, same table.hashKey List.mem_cons_self]
  cases sort : table.sortKey with
  | none => rfl
  | some name => simp only [same name (by simp [keyNames, sort])]

theorem Table.rowKey_congr {table : Table} {a b : Item}
    (same : ∀ name, table.isKeyAttribute name = true → a.get? name = b.get? name) :
    table.rowKey a = table.rowKey b := by
  refine rowKey_of_parts fun name member => ?_
  rw [keyPart, keyPart, same name (mem_keyNames.mp member)]

theorem Table.rowKey_keyAttributes (table : Table) (item : Item) :
    table.rowKey (table.keyAttributes item) = table.rowKey item := by
  apply rowKey_congr
  intro name isKey
  rw [keyAttributes, Dict.get?_filter, if_pos isKey]

namespace Engine

open Action

variable {engine : Engine} {table : Table} {bindings : Bindings} {returnsOld : Bool}
  {plan : WritePlan}

theorem keyOf_ok {key : Item} {rowKey : RowKey} (ok : (keyOf table key).result = .ok rowKey) :
    table.rowKey key = .ok rowKey := by
  obtain ⟨_, _, ok⟩ := (Still.key _).of_bind_ok ok
  exact of_ofExcept_ok ok

theorem planPut_ok {item : Item} {condition : Option String}
    (ok : (engine.planPut table item condition bindings returnsOld).result = .ok plan) :
    plan.Prepared ∧ plan.table = table ∧ plan.action = .put item ∧ plan.bindings = bindings ∧
      plan.keyItem = table.keyAttributes item ∧ plan.returnsOld = returnsOld ∧
      (condition = none → plan.condition = none) := by
  obtain ⟨_, valid, ok⟩ := (Still.value _).of_bind_ok ok
  obtain ⟨key, keyed, ok⟩ := (Still.key _).of_bind_ok ok
  obtain ⟨_, sized, ok⟩ := (Still.require _ _).of_bind_ok ok
  obtain ⟨_, indexed, ok⟩ := (Still.key _).of_bind_ok ok
  obtain ⟨parsed, parsing, ok⟩ := (still_parseCondition _).of_bind_ok ok
  obtain ⟨_, _, ok⟩ := (engine.still_checkBindings _ _).of_bind_ok ok
  cases ok
  have keyFound := of_ofExcept_ok keyed
  refine ⟨⟨?_, ?_, ?_⟩, rfl, rfl, rfl, rfl, rfl, ?_⟩
  · exact (table.rowKey_keyAttributes item).trans keyFound
  · intro other same
    cases same
    exact ⟨keyFound, of_ofExcept_ok valid, by simpa using of_require_ok sized,
      of_ofExcept_ok indexed⟩
  · intro update impossible
    cases impossible
  · rintro rfl
    cases parsing
    rfl

theorem planUpdate_ok {key : Item} {update condition : Option String}
    (ok : (engine.planUpdate table key update condition bindings returnsOld).result = .ok plan) :
    plan.Prepared ∧ plan.table = table ∧ (∃ parsed, plan.action = .update parsed) ∧
      plan.bindings = bindings ∧ plan.keyItem = key ∧ plan.returnsOld = returnsOld := by
  obtain ⟨rowKey, keyed, ok⟩ := (still_keyOf _ _).of_bind_ok ok
  obtain ⟨parsed, _, ok⟩ := (still_parseUpdate _).of_bind_ok ok
  obtain ⟨_, _, ok⟩ := (still_parseCondition _).of_bind_ok ok
  obtain ⟨_, valid, ok⟩ := (Still.expression _).of_bind_ok ok
  obtain ⟨_, _, ok⟩ := (engine.still_checkBindings _ _).of_bind_ok ok
  cases ok
  refine ⟨⟨keyOf_ok keyed, ?_, ?_⟩, rfl, ⟨parsed, rfl⟩, rfl, rfl, rfl⟩
  · intro item impossible
    cases impossible
  · intro other same
    cases same
    exact of_ofExcept_ok valid

theorem planDelete_ok {key : Item} {condition : Option String}
    (ok : (engine.planDelete table key condition bindings returnsOld).result = .ok plan) :
    plan.Prepared ∧ plan.table = table ∧ plan.action = .delete ∧ plan.bindings = bindings ∧
      plan.keyItem = key ∧ plan.returnsOld = returnsOld ∧
      (condition = none → plan.condition = none) := by
  obtain ⟨rowKey, keyed, ok⟩ := (still_keyOf _ _).of_bind_ok ok
  obtain ⟨parsed, parsing, ok⟩ := (still_parseCondition _).of_bind_ok ok
  obtain ⟨_, _, ok⟩ := (engine.still_checkBindings _ _).of_bind_ok ok
  cases ok
  refine ⟨⟨keyOf_ok keyed, ?_, ?_⟩, rfl, rfl, rfl, rfl, rfl, ?_⟩
  · intro item impossible
    cases impossible
  · intro update impossible
    cases impossible
  · rintro rfl
    cases parsing
    rfl

theorem planCheck_ok {key : Item} {condition : String}
    (ok : (engine.planCheck table key condition bindings returnsOld).result = .ok plan) :
    plan.Prepared ∧ plan.table = table ∧ plan.action = .check ∧ plan.bindings = bindings ∧
      plan.keyItem = key ∧ plan.returnsOld = returnsOld := by
  obtain ⟨rowKey, keyed, ok⟩ := (still_keyOf _ _).of_bind_ok ok
  obtain ⟨parsed, _, ok⟩ := (Still.expression _).of_bind_ok ok
  obtain ⟨_, _, ok⟩ := (engine.still_checkBindings _ _).of_bind_ok ok
  cases ok
  refine ⟨⟨keyOf_ok keyed, ?_, ?_⟩, rfl, rfl, rfl, rfl, rfl⟩
  · intro item impossible
    cases impossible
  · intro update impossible
    cases impossible

theorem table_ok {name : String} (ok : (engine.table name).result = .ok table) :
    engine.tables.get? name = some table := by
  rw [Engine.table] at ok
  split at ok
  · rename_i found
    cases ok
    exact found
  · cases ok

theorem planGet_ok {name : String} {key : Item} {projection : Option String}
    {names : Dict String String} {plan : ReadPlan}
    (ok : (engine.planGet name key projection names).result = .ok plan) :
    (engine.table name).result = .ok plan.table ∧ plan.table.rowKey key = .ok plan.key ∧
      (projection = none → plan.paths = none) := by
  obtain ⟨table, found, ok⟩ := (engine.still_table _).of_bind_ok ok
  obtain ⟨rowKey, keyed, ok⟩ := (still_keyOf _ _).of_bind_ok ok
  obtain ⟨paths, parsing, ok⟩ := (engine.still_parsePaths _ _).of_bind_ok ok
  cases ok
  refine ⟨found, keyOf_ok keyed, ?_⟩
  rintro rfl
  obtain ⟨parsed, unparsed, parsing⟩ := (still_parseProjection _).of_bind_ok parsing
  obtain ⟨_, _, parsing⟩ := (engine.still_checkPlaceholders _ _ _).of_bind_ok parsing
  cases unparsed
  cases parsing
  rfl

theorem planKeys_ok {request : KeysRequest} {plans : List ReadPlan}
    (ok : (engine.planKeys table request).result = .ok plans) :
    ∀ plan ∈ plans, plan.table = table := by
  obtain ⟨paths, _, ok⟩ := (engine.still_parsePaths _ _).of_bind_ok ok
  obtain ⟨keys, _, ok⟩ := (still_distinctKeys _ _ _).of_bind_ok ok
  cases ok
  exact List.forall_mem_map.mpr fun _ _ => rfl

inductive PlansAction (engine : Engine) (plan : WritePlan) : TransactWrite → Prop
  | check {check : ConditionCheck} {table : Table}
      (found : (engine.table check.table).result = .ok table)
      (planned : (engine.planCheck table check.key check.condition check.bindings
        (FailureReturn.wantsOld check.onFailure)).result = .ok plan) :
      PlansAction engine plan ⟨some check, none, none, none⟩
  | put {put : TransactPut} {table : Table} (found : (engine.table put.table).result = .ok table)
      (planned : (engine.planPut table put.item put.condition put.bindings
        (FailureReturn.wantsOld put.onFailure)).result = .ok plan) :
      PlansAction engine plan ⟨none, some put, none, none⟩
  | delete {delete : TransactDelete} {table : Table}
      (found : (engine.table delete.table).result = .ok table)
      (planned : (engine.planDelete table delete.key delete.condition delete.bindings
        (FailureReturn.wantsOld delete.onFailure)).result = .ok plan) :
      PlansAction engine plan ⟨none, none, some delete, none⟩
  | update {update : TransactUpdate} {table : Table}
      (found : (engine.table update.table).result = .ok table)
      (planned : (engine.planUpdate table update.key (some update.update) update.condition
        update.bindings (FailureReturn.wantsOld update.onFailure)).result = .ok plan) :
      PlansAction engine plan ⟨none, none, none, some update⟩

theorem planTransactWrite_ok {request : TransactWrite}
    (ok : (engine.planTransactWrite request).result = .ok plan) :
    engine.PlansAction plan request := by
  obtain ⟨check, put, delete, update⟩ := request
  rw [planTransactWrite] at ok
  split at ok
  · rename_i check given noPut noDelete noUpdate
    cases given
    cases noPut
    cases noDelete
    cases noUpdate
    obtain ⟨table, found, ok⟩ := (engine.still_table _).of_bind_ok ok
    exact .check found ok
  · rename_i put noCheck given noDelete noUpdate
    cases noCheck
    cases given
    cases noDelete
    cases noUpdate
    obtain ⟨table, found, ok⟩ := (engine.still_table _).of_bind_ok ok
    exact .put found ok
  · rename_i delete noCheck noPut given noUpdate
    cases noCheck
    cases noPut
    cases given
    cases noUpdate
    obtain ⟨table, found, ok⟩ := (engine.still_table _).of_bind_ok ok
    exact .delete found ok
  · rename_i update noCheck noPut noDelete given
    cases noCheck
    cases noPut
    cases noDelete
    cases given
    obtain ⟨table, found, ok⟩ := (engine.still_table _).of_bind_ok ok
    exact .update found ok
  · cases ok

theorem planTransactWrites_fits {requests : List TransactWrite} {planned plans : List WritePlan}
    (ok : (engine.planTransactWrites planned requests).result = .ok plans) :
    ∃ more, plans = planned ++ more ∧ List.Forall₂
      (fun request plan => (engine.planTransactWrite request).result = .ok plan) requests more := by
  induction requests generalizing planned with
  | nil =>
      cases ok
      exact ⟨[], (List.append_nil _).symm, .nil⟩
  | cons request rest ih =>
      obtain ⟨plan, here, ok⟩ := (engine.still_planTransactWrite _).of_bind_ok ok
      obtain ⟨_, _, ok⟩ := (Still.require _ _).of_bind_ok ok
      obtain ⟨more, rfl, fits⟩ := ih ok
      exact ⟨plan :: more, List.append_assoc _ _ _, .cons here fits⟩

theorem of_mem_planTransactWrites {requests : List TransactWrite}
    {planned plans : List WritePlan}
    (ok : (engine.planTransactWrites planned requests).result = .ok plans)
    (member : plan ∈ plans) :
    plan ∈ planned ∨
      ∃ request ∈ requests, (engine.planTransactWrite request).result = .ok plan := by
  obtain ⟨more, rfl, fits⟩ := planTransactWrites_fits ok
  rcases List.mem_append.mp member with earlier | later
  · exact Or.inl earlier
  · exact Or.inr (exists_of_mem_right fits later)

theorem of_mem_planBatchWrites {requests : List (Table × BatchWrite)}
    {planned writes : List PlannedWrite} {write : PlannedWrite}
    (ok : (engine.planBatchWrites planned requests).result = .ok writes)
    (member : write ∈ writes) :
    write ∈ planned ∨ ∃ request ∈ requests,
      (engine.planBatchWrite request.1 request.2).result = .ok write.plan := by
  induction requests generalizing planned with
  | nil =>
      cases ok
      exact Or.inl member
  | cons request rest ih =>
      obtain ⟨plan, here, ok⟩ := (engine.still_planBatchWrite _ _).of_bind_ok ok
      obtain ⟨_, _, ok⟩ := (Still.require _ _).of_bind_ok ok
      rcases ih ok with listed | ⟨other, later, there⟩
      · rcases List.mem_append.mp listed with earlier | last
        · exact Or.inl earlier
        · rw [List.mem_singleton.mp last]
          exact Or.inr ⟨request, List.mem_cons_self, here⟩
      · exact Or.inr ⟨other, List.mem_cons_of_mem _ later, there⟩

end Engine
end ItemStore
