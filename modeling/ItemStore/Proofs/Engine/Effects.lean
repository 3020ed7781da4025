import ItemStore.Proofs.Engine.Failures
import ItemStore.Proofs.Store.Writes

/-!
What carrying out a plan does, told from what is stored under its key: the outcome, the rows that
are written and the units that are charged. Unless the store or a hook fails it, that is what
happens, and a plan that is refused changes nothing.
-/

namespace ItemStore

/-- A hook that writes no rows. It may read, note and fail. -/
def Hook.Quiet (hook : Hook) : Prop :=
  ∀ faults change transaction,
    ((hook change).run faults transaction).transaction = transaction

def Store.item? (rows : Store) (space : Space) (key : RowKey) : Option (Option Item) :=
  match rows.get? space key with
  | none => some none
  | some document => document.toItem?.map some

namespace Action

variable {α β : Type} {fragile : Prop}

def Breaks (fragile : Prop) (action : Action α) (session : Session) : Prop :=
  fragile ∧ ∃ failure after, action.exec session = (.error failure, after) ∧ failure.MayPass

def Does (fragile : Prop) (action : Action α) (value : α) (writes : List RowWrite)
    (charges : Ledger) : Prop :=
  ∀ session,
    action.Breaks fragile session ∨
      ∃ after, action.exec session = (.ok value, after) ∧
        after.transaction.rows = session.transaction.rows.after writes ∧
        after.ledger = session.ledger ++ charges

theorem Does.pure (value : α) : (Pure.pure value : Action α).Does fragile value [] [] :=
  fun session => Or.inr ⟨session, rfl, rfl, by simp⟩

theorem Does.bind {action : Action α} {next : α → Action β} {value : α} {result : β}
    {writes more : List RowWrite} {charges others : Ledger}
    (first : action.Does fragile value writes charges)
    (second : (next value).Does fragile result more others) :
    (action >>= next).Does fragile result (writes ++ more) (charges ++ others) := by
  intro session
  rcases first session with ⟨weak, failure, after, failed, passes⟩ | ⟨middle, ok, rows, ledger⟩
  · exact Or.inl ⟨weak, failure, after, exec_bind_error failed next, passes⟩
  · rw [Breaks, exec_bind_ok ok]
    rcases second middle with broken | ⟨after, last, moreRows, moreLedger⟩
    · exact Or.inl broken
    · refine Or.inr ⟨after, last, ?_, ?_⟩
      · rw [moreRows, rows, Store.after_append]
      · rw [moreLedger, ledger, List.append_assoc]

theorem Does.andThen {action : Action α} {next : α → Action β} {value : α} {result : β}
    {writes : List RowWrite} {charges : Ledger} (first : action.Does fragile value [] [])
    (second : (next value).Does fragile result writes charges) :
    (action >>= next).Does fragile result writes charges :=
  first.bind second

theorem Does.forM {step : α → Action PUnit} {writes : α → List RowWrite} {charges : α → Ledger}
    {values : List α}
    (does : ∀ value ∈ values, (step value).Does fragile ⟨⟩ (writes value) (charges value)) :
    (values.forM step).Does fragile ⟨⟩ (values.flatMap writes) (values.flatMap charges) := by
  induction values with
  | nil => exact Does.pure _
  | cons value rest ih =>
      rw [List.forM, List.flatMap_cons, List.flatMap_cons]
      exact (does value List.mem_cons_self).bind
        (ih fun other member => does other (List.mem_cons_of_mem _ member))

end Action

namespace Engine

open Action

inductive IndexStep where
  | put (key : RowKey) (item : Item)
  | delete (key : RowKey) (item : Item)

namespace IndexStep

def write (space : Space) : IndexStep → RowWrite
  | .put key item => ⟨space, key, some (Document.ofItem item)⟩
  | .delete key _ => ⟨space, key, none⟩

def charge (space : Space) : IndexStep → Charge
  | .put _ item | .delete _ item => ⟨space, 0, writeUnits item.size⟩

end IndexStep

def stepsBetween : Option (RowKey × Item) → Option (RowKey × Item) → List IndexStep
  | some (oldKey, oldItem), some (newKey, newItem) =>
      if oldKey = newKey then
        if Item.equal oldItem newItem then [] else [.put newKey newItem]
      else [.delete oldKey oldItem, .put newKey newItem]
  | some (oldKey, oldItem), none => [.delete oldKey oldItem]
  | none, some (newKey, newItem) => [.put newKey newItem]
  | none, none => []

def indexSteps (table : Table) (stored new : Option Item) (index : Index) : List IndexStep :=
  stepsBetween (oldIndexRow table index stored) (oldIndexRow table index new)

def indexWrites (table : Table) (stored new : Option Item) (index : Index) : List RowWrite :=
  (indexSteps table stored new index).map (IndexStep.write ⟨table.name, some index.name⟩)

def indexCharges (table : Table) (stored new : Option Item) (index : Index) : Ledger :=
  (indexSteps table stored new index).map (IndexStep.charge ⟨table.name, some index.name⟩)

def baseWrites (plan : WritePlan) (stored new : Option Item) : List RowWrite :=
  match stored, new with
  | none, none => []
  | _, new => [⟨plan.space, plan.key, new.map Document.ofItem⟩]

structure Effect where
  outcome : WriteOutcome
  writes : List RowWrite
  charges : Ledger

def replacement (engine : Engine) (plan : WritePlan) (stored new : Option Item) : Effect where
  outcome := .applied (engine.visible plan.table stored) new
  writes := baseWrites plan stored new ++
    plan.table.indexes.flatMap (indexWrites plan.table stored new)
  charges := ⟨plan.space, 0, writeUnits (max (Item.sizeOf? stored) (Item.sizeOf? new))⟩ ::
    plan.table.indexes.flatMap (indexCharges plan.table stored new)

/-- What carrying out a plan does when the given item is stored under its key. -/
def effect (engine : Engine) (plan : WritePlan) (stored : Option Item) : Except Failure Effect := do
  let current := engine.visible plan.table stored
  if ← (conditionHolds plan current).result then
    match plan.action with
    | .check => return ⟨.checked, [], [⟨plan.space, readUnits (Item.sizeOf? current), 0⟩]⟩
    | .put item => return engine.replacement plan stored (some item)
    | .update update => do
        let item ← (updatedItem plan update current).result
        if item.size ≤ maxItemSize then return engine.replacement plan stored (some item)
        else throw (.request .itemTooLarge)
    | .delete => return engine.replacement plan stored none
  else
    return ⟨.conditionFailed (if plan.returnsOld then current else none), [],
      [⟨plan.space, 0, writeUnits (Item.sizeOf? current)⟩]⟩

def Fragile (engine : Engine) : Prop :=
  engine.faults ≠ [] ∨ ∃ hook ∈ engine.hooks, ∃ change transaction message,
    ((hook change).run engine.faults transaction).outcome = .error message

variable (engine : Engine)

theorem does_call (call : StoreCall) (space : Option Space) :
    (engine.call call space).Does engine.Fragile ⟨⟩ [] [] := by
  rw [Engine.call]
  split
  · rename_i refused
    have weak : engine.Fragile := by
      refine Or.inl fun none => ?_
      rw [none] at refused
      cases refused
    exact fun session => Or.inl ⟨weak, .store, session, rfl, rfl⟩
  · exact Does.pure _

theorem does_chargeRead {fragile : Prop} (space : Space) (bytes : Nat) :
    (chargeRead space bytes).Does fragile ⟨⟩ [] [⟨space, readUnits bytes, 0⟩] :=
  fun _ => Or.inr ⟨_, rfl, rfl, rfl⟩

theorem does_chargeWrite {fragile : Prop} (space : Space) (bytes : Nat) :
    (chargeWrite space bytes).Does fragile ⟨⟩ [] [⟨space, 0, writeUnits bytes⟩] :=
  fun _ => Or.inr ⟨_, rfl, rfl, rfl⟩

theorem does_putRow (space : Space) (key : RowKey) (document : Document) :
    (engine.putRow space key document).Does engine.Fragile ⟨⟩ [⟨space, key, some document⟩] [] :=
  (engine.does_call _ _).andThen fun _ => Or.inr ⟨_, rfl, rfl, by simp⟩

theorem does_deleteRow (space : Space) (key : RowKey) :
    (engine.deleteRow space key).Does engine.Fragile ⟨⟩ [⟨space, key, none⟩] [] :=
  (engine.does_call _ _).andThen fun session =>
    Or.inr ⟨_, rfl, session.transaction.rows_delete space key, by simp⟩

theorem does_putIndexRow (space : Space) (key : RowKey) (item : Item) :
    (engine.putIndexRow space key item).Does engine.Fragile ⟨⟩
      [(IndexStep.put key item).write space] [(IndexStep.put key item).charge space] :=
  (does_chargeWrite _ _).bind (engine.does_putRow _ _ _)

theorem does_deleteIndexRow (space : Space) (key : RowKey) (item : Item) :
    (engine.deleteIndexRow space key item).Does engine.Fragile ⟨⟩
      [(IndexStep.delete key item).write space] [(IndexStep.delete key item).charge space] :=
  (engine.does_deleteRow _ _).bind (does_chargeWrite _ _)

theorem does_writeBase {plan : WritePlan} {stored new : Option Item}
    (sized : Item.sizeOf? new ≤ maxItemSize) :
    (engine.writeBase plan stored new).Does engine.Fragile ⟨⟩ (baseWrites plan stored new)
      [⟨plan.space, 0, writeUnits (max (Item.sizeOf? stored) (Item.sizeOf? new))⟩] := by
  cases new with
  | some item =>
      have fits : checkItemSize (Document.ofItem item).size = pure () := by
        have small : (Document.ofItem item).size ≤ maxItemSize := sized
        rw [checkItemSize, Action.require, if_pos (decide_eq_true small)]
      have written : baseWrites plan stored (some item) =
          [⟨plan.space, plan.key, some (Document.ofItem item)⟩] := by
        cases stored <;> rfl
      rw [written]
      simp only [writeBase, fits]
      exact (Does.pure _).andThen ((engine.does_putRow _ _ _).bind (does_chargeWrite _ _))
  | none =>
      cases stored with
      | none => exact does_chargeWrite _ _
      | some item => exact (engine.does_deleteRow _ _).bind (does_chargeWrite _ _)

theorem newIndexRow_eq {table : Table} {index : Index} {new : Option Item}
    (keyed : ∀ item, new = some item → ∃ key, index.rowKey? table item = .ok key) :
    newIndexRow table index new = .ok (oldIndexRow table index new) := by
  cases new with
  | none => rfl
  | some item =>
      obtain ⟨key, formed⟩ := keyed item rfl
      cases key <;> simp only [newIndexRow, oldIndexRow, formed, Option.bind_some] <;> rfl

theorem does_maintainIndex {table : Table} {stored new : Option Item} {index : Index}
    (keyed : ∀ item, new = some item → ∃ key, index.rowKey? table item = .ok key) :
    (engine.maintainIndex table stored new index).Does engine.Fragile ⟨⟩
      (indexWrites table stored new index) (indexCharges table stored new index) := by
  simp only [maintainIndex, newIndexRow_eq keyed, Action.key, Action.ofExcept, indexWrites,
    indexCharges, indexSteps, stepsBetween]
  refine (Does.pure (oldIndexRow table index new)).andThen ?_
  rcases oldIndexRow table index stored with _ | ⟨oldKey, oldItem⟩
  · rcases oldIndexRow table index new with _ | ⟨newKey, newItem⟩
    · exact Does.pure _
    · exact engine.does_putIndexRow _ _ _
  · rcases oldIndexRow table index new with _ | ⟨newKey, newItem⟩
    · exact engine.does_deleteIndexRow _ _ _
    · by_cases sameKey : oldKey = newKey
      · by_cases sameItem : Item.equal oldItem newItem = true
        · simp only [sameKey, sameItem, if_true]
          exact Does.pure _
        · simp only [sameKey, sameItem, if_true, Bool.false_eq_true, if_false]
          exact engine.does_putIndexRow _ _ _
      · simp only [sameKey, if_false]
        exact (engine.does_deleteIndexRow _ _ _).bind (engine.does_putIndexRow _ _ _)

theorem does_notify (quiet : ∀ hook ∈ engine.hooks, hook.Quiet) (change : Change)
    {hooks : List Hook} (among : ∀ hook ∈ hooks, hook ∈ engine.hooks) :
    (engine.notify change hooks).Does engine.Fragile ⟨⟩ [] [] := by
  induction hooks with
  | nil => exact Does.pure _
  | cons hook rest ih =>
      intro session
      have member := among hook List.mem_cons_self
      have same := quiet hook member engine.faults change session.transaction
      simp only [Breaks, notify, exec_bind, exec_get, exec_set]
      split
      · rcases ih (fun other there => among other (List.mem_cons_of_mem _ there)) _ with
          broken | ⟨after, ok, rows, ledger⟩
        · exact Or.inl broken
        · refine Or.inr ⟨after, ok, ?_, ledger⟩
          rw [rows]
          exact congrArg Transaction.rows same
      · rename_i message failed
        exact Or.inl ⟨Or.inr ⟨hook, member, change, session.transaction, message, failed⟩,
          .hook message, _, rfl, rfl⟩

theorem does_announce (quiet : ∀ hook ∈ engine.hooks, hook.Quiet) (plan : WritePlan)
    (stored new : Option Item) :
    (engine.announce plan stored new).Does engine.Fragile ⟨⟩ [] [] := by
  rw [announce]
  split
  · exact Does.pure _
  · exact engine.does_notify quiet _ fun _ member => member

theorem does_replace (quiet : ∀ hook ∈ engine.hooks, hook.Quiet) {plan : WritePlan}
    {stored new : Option Item} (sized : Item.sizeOf? new ≤ maxItemSize)
    (indexed : ∀ item, new = some item → plan.table.checkIndexKeys item = .ok ()) :
    (engine.replace plan stored new).Does engine.Fragile
      (engine.replacement plan stored new).outcome (engine.replacement plan stored new).writes
      (engine.replacement plan stored new).charges := by
  have indexes : (plan.table.indexes.forM (engine.maintainIndex plan.table stored new)).Does
      engine.Fragile ⟨⟩ (plan.table.indexes.flatMap (indexWrites plan.table stored new))
      (plan.table.indexes.flatMap (indexCharges plan.table stored new)) :=
    Does.forM fun index member => engine.does_maintainIndex fun item same =>
      Table.checkIndexKeys_iff.mp (indexed item same) index member
  let last : Action WriteOutcome := do
    engine.announce plan stored new
    return .applied (engine.visible plan.table stored) new
  have quietly : last.Does engine.Fragile (.applied (engine.visible plan.table stored) new) [] [] :=
    (engine.does_announce quiet plan stored new).andThen (Does.pure _)
  have rest := @Does.bind _ _ _ _ (fun _ => last) _ _ _ _ _ _ indexes quietly
  rw [List.append_nil, List.append_nil] at rest
  exact (engine.does_writeBase sized).bind rest

theorem exec_bind_still {α β : Type} {action : Action α} (still : action.Still)
    (next : α → Action β) (session : Session) :
    (action >>= next).exec session =
      match action.result with
      | .ok value => (next value).exec session
      | .error failure => (.error failure, session) := by
  rw [exec_bind, still session]
  cases action.result <;> rfl

def MayBreak (plan : WritePlan) (rows : Store) : Prop :=
  engine.Fragile ∨ rows.item? plan.space plan.key = none

theorem exec_load_called {table : Table} (key : RowKey) {session : Session}
    (called : (engine.call .get (some ⟨table.name, none⟩)).exec session = (.ok (), session)) :
    (engine.load table key).exec session =
      ((session.transaction.rows.item? ⟨table.name, none⟩ key).elim (.error .store) .ok,
        session) := by
  rw [load, exec_bind_ok called, exec_bind_ok (exec_get session)]
  simp only [Transaction.get?, Store.item?]
  cases session.transaction.rows.get? ⟨table.name, none⟩ key with
  | none => rfl
  | some document =>
      simp only [readDocument]
      cases document.toItem? <;> rfl

theorem load_ok {engine : Engine} {table : Table} {key : RowKey} {stored : Option Item}
    {session after : Session} (ok : (engine.load table key).exec session = (.ok stored, after)) :
    session.transaction.rows.item? ⟨table.name, none⟩ key = some stored ∧ after = session := by
  obtain ⟨_, called, calling, _⟩ := of_exec_bind_ok ok
  cases engine.exec_call_ok calling
  rw [engine.exec_load_called key calling] at ok
  cases read : session.transaction.rows.item? ⟨table.name, none⟩ key with
  | none =>
      rw [read] at ok
      cases ok
  | some found =>
      rw [read] at ok
      cases ok
      exact ⟨rfl, rfl⟩

theorem exec_load (plan : WritePlan) (session : Session) :
    (engine.load plan.table plan.key).Breaks (engine.MayBreak plan session.transaction.rows)
      session ∨
    ∃ stored, session.transaction.rows.item? plan.space plan.key = some stored ∧
      (engine.load plan.table plan.key).exec session = (.ok stored, session) := by
  rcases engine.does_call .get (some plan.space) session with
    ⟨weak, failure, after, failed, passes⟩ | ⟨after, called, _, _⟩
  · exact Or.inl ⟨Or.inl weak, failure, after, exec_bind_error failed _, passes⟩
  · cases engine.exec_call_ok called
    have loaded : (engine.load plan.table plan.key).exec session =
        ((session.transaction.rows.item? plan.space plan.key).elim (.error .store) .ok, session) :=
      engine.exec_load_called plan.key called
    cases read : session.transaction.rows.item? plan.space plan.key with
    | none =>
        rw [read] at loaded
        exact Or.inl ⟨Or.inr read, .store, session, loaded, rfl⟩
    | some stored =>
        rw [read] at loaded
        exact Or.inr ⟨stored, rfl, loaded⟩

def Meets (fragile : Prop) (action : Action WriteOutcome) (session : Session)
    (expected : Except Failure Effect) : Prop :=
  action.Breaks fragile session ∨
    match expected with
    | .ok effect => ∃ after, action.exec session = (.ok effect.outcome, after) ∧
        after.transaction.rows = session.transaction.rows.after effect.writes ∧
        after.ledger = session.ledger ++ effect.charges
    | .error failure => action.exec session = (.error failure, session)

section Meets

variable {fragile : Prop} {action : Action WriteOutcome} {session : Session}

theorem Meets.of_exec_eq {other : Action WriteOutcome} {expected : Except Failure Effect}
    (same : action.exec session = other.exec session)
    (meets : Meets fragile other session expected) : Meets fragile action session expected := by
  unfold Meets Breaks at meets ⊢
  rw [same]
  exact meets

theorem Meets.of_does {effect : Effect}
    (does : action.Does fragile effect.outcome effect.writes effect.charges) :
    Meets fragile action session (.ok effect) :=
  does session

theorem Meets.of_refused {failure : Failure}
    (refused : action.exec session = (.error failure, session)) :
    Meets fragile action session (.error failure) :=
  Or.inr refused

theorem Meets.still_bind {α : Type} {first : Action α} (still : first.Still)
    {next : α → Action WriteOutcome} {expected : α → Except Failure Effect}
    (later : ∀ value, first.result = .ok value →
      Meets fragile (next value) session (expected value)) :
    Meets fragile (first >>= next) session (first.result >>= expected) := by
  have same := exec_bind_still still next session
  cases outcome : first.result with
  | error failure =>
      rw [outcome] at same
      exact Meets.of_refused same
  | ok value =>
      rw [outcome] at same
      exact Meets.of_exec_eq same (later value outcome)

end Meets

theorem replace_too_large {plan : WritePlan} {stored : Option Item} {item : Item}
    (large : ¬item.size ≤ maxItemSize) (session : Session) :
    (engine.replace plan stored (some item)).exec session =
      (.error (.request .itemTooLarge), session) := by
  have refused : checkItemSize (Document.ofItem item).size = Action.refuse .itemTooLarge := by
    have oversized : ¬(Document.ofItem item).size ≤ maxItemSize := large
    rw [checkItemSize, Action.require, if_neg (by simpa using oversized)]
  have failed : (engine.writeBase plan stored (some item)).exec session =
      (.error (.request .itemTooLarge), session) := by
    simp only [writeBase, refused]
    rfl
  exact exec_bind_error failed _

theorem updatedItem_ok {plan : WritePlan} {update : Update} {current : Option Item} {item : Item}
    (ok : (updatedItem plan update current).result = .ok item) :
    update.apply plan.bindings (current.getD plan.keyItem) = .ok item ∧
      item.validate = .ok () ∧ plan.table.checkIndexKeys item = .ok () := by
  obtain ⟨made, applied, ok⟩ := (Still.expression _).of_bind_ok ok
  obtain ⟨_, valid, ok⟩ := (Still.value _).of_bind_ok ok
  obtain ⟨_, indexed, ok⟩ := (Still.key _).of_bind_ok ok
  cases ok
  exact ⟨of_ofExcept_ok applied, of_ofExcept_ok valid, of_ofExcept_ok indexed⟩

/-- Carrying out a plan has its effect on what is stored, unless it breaks. -/
theorem execute_meets (quiet : ∀ hook ∈ engine.hooks, hook.Quiet) {plan : WritePlan}
    (prepared : plan.Prepared) (session : Session) :
    (engine.execute plan).Breaks (engine.MayBreak plan session.transaction.rows) session ∨
    ∃ stored, session.transaction.rows.item? plan.space plan.key = some stored ∧
      Meets engine.Fragile (engine.execute plan) session (engine.effect plan stored) := by
  rcases engine.exec_load plan session with
    ⟨weak, failure, after, failed, passes⟩ | ⟨stored, read, loaded⟩
  · exact Or.inl ⟨weak, failure, after, exec_bind_error failed _, passes⟩
  refine Or.inr ⟨stored, read, Meets.of_exec_eq (exec_bind_ok loaded _) ?_⟩
  refine Meets.still_bind (still_conditionHolds _ _) fun held _ => ?_
  cases held with
  | false =>
      refine Meets.of_does ?_
      exact (does_chargeWrite _ _).bind (Does.pure (WriteOutcome.conditionFailed _))
  | true =>
      simp only [if_true]
      cases action : plan.action with
      | check =>
          refine Meets.of_does ?_
          exact (does_chargeRead _ _).bind (Does.pure WriteOutcome.checked)
      | put item =>
          obtain ⟨_, _, sized, indexed⟩ := prepared.put item action
          have keyed : ∀ other, some item = some other →
              plan.table.checkIndexKeys other = .ok () := by
            rintro _ ⟨rfl⟩
            exact indexed
          have fits : Item.sizeOf? (some item) ≤ maxItemSize := sized
          exact Meets.of_does (engine.does_replace quiet fits keyed)
      | update update =>
          refine Meets.still_bind (still_updatedItem _ _ _) fun item updated => ?_
          have keyed : ∀ other, some item = some other →
              plan.table.checkIndexKeys other = .ok () := by
            rintro _ ⟨rfl⟩
            exact (updatedItem_ok updated).2.2
          split
          · rename_i sized
            have fits : Item.sizeOf? (some item) ≤ maxItemSize := sized
            exact Meets.of_does (engine.does_replace quiet fits keyed)
          · rename_i large
            exact Meets.of_refused (engine.replace_too_large large session)
      | delete =>
          have keyed : ∀ item, (none : Option Item) = some item →
              plan.table.checkIndexKeys item = .ok () := by simp
          exact Meets.of_does (engine.does_replace quiet (Nat.zero_le _) keyed)

/-- A plan that comes to an outcome has had its effect. -/
theorem execute_ok (quiet : ∀ hook ∈ engine.hooks, hook.Quiet) {plan : WritePlan}
    (prepared : plan.Prepared) {session after : Session} {outcome : WriteOutcome}
    (ok : (engine.execute plan).exec session = (.ok outcome, after)) :
    ∃ stored effect, session.transaction.rows.item? plan.space plan.key = some stored ∧
      engine.effect plan stored = .ok effect ∧ effect.outcome = outcome ∧
      after.transaction.rows = session.transaction.rows.after effect.writes ∧
      after.ledger = session.ledger ++ effect.charges := by
  have unbroken : ∀ fragile, ¬(engine.execute plan).Breaks fragile session := by
    rintro fragile ⟨_, failure, other, failed, _⟩
    rw [ok] at failed
    cases failed
  rcases engine.execute_meets quiet prepared session with broken | ⟨stored, read, meets⟩
  · exact absurd broken (unbroken _)
  rcases meets with broken | met
  · exact absurd broken (unbroken _)
  cases told : engine.effect plan stored with
  | ok effect =>
      rw [told] at met
      obtain ⟨last, done, rows, ledger⟩ := met
      rw [ok] at done
      cases done
      exact ⟨stored, effect, read, told, rfl, rows, ledger⟩
  | error failure =>
      rw [told] at met
      rw [show (engine.execute plan).exec session = _ from met] at ok
      cases ok

theorem execute_steady (quiet : ∀ hook ∈ engine.hooks, hook.Quiet) (steady : ¬engine.Fragile)
    {plan : WritePlan} (prepared : plan.Prepared) {session : Session} {stored : Option Item}
    (read : session.transaction.rows.item? plan.space plan.key = some stored) :
    match engine.effect plan stored with
    | .ok effect => ∃ after, (engine.execute plan).exec session = (.ok effect.outcome, after) ∧
        after.transaction.rows = session.transaction.rows.after effect.writes ∧
        after.ledger = session.ledger ++ effect.charges
    | .error failure => (engine.execute plan).exec session = (.error failure, session) := by
  rcases engine.execute_meets quiet prepared session with ⟨weak, _⟩ | ⟨other, same, meets⟩
  · rcases weak with weak | unreadable
    · exact absurd weak steady
    · rw [read] at unreadable
      cases unreadable
  · rw [read] at same
    cases same
    rcases meets with ⟨weak, _⟩ | met
    · exact absurd weak steady
    · exact met

end Engine
end ItemStore
