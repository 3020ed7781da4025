import ItemStore.Proofs.Engine.BatchPlans
import ItemStore.Proofs.Engine.BlindHooks
import ItemStore.Proofs.Engine.SingleWrites

/-!
A batch of writes loses none and repeats none. Each is handed back and has changed nothing, or has
done what the same write does alone.
-/

namespace ItemStore

def BatchWrite.alone? (write : BatchWrite) (table : String) : Option Request :=
  match write.put, write.delete with
  | some item, none => some (.putItem ⟨table, item, none, .none, none, none, none⟩)
  | none, some key => some (.deleteItem ⟨table, key, none, .none, none, none, none⟩)
  | _, _ => none

def Request.telling (capacity : Option CapacityDetail) : Request → Request
  | .putItem request => .putItem { request with capacity }
  | .deleteItem request => .deleteItem { request with capacity }
  | request => request

theorem BatchWrite.telling_none {write : BatchWrite} {table : String} {single : Request}
    (asked : write.alone? table = some single) : single.telling none = single := by
  rw [BatchWrite.alone?] at asked
  split at asked <;> cases asked <;> rfl

def WritePlan.Agree (plan : WritePlan) (first second : Store) : Prop :=
  ∀ space key, plan.Touches space key → first.get? space key = second.get? space key

namespace Engine

open Action

structure Fate where
  write : PlannedWrite
  back : Bool

instance : Std.Symm fun fate other : Fate => fate.write.plan.Apart other.write.plan :=
  ⟨fun _ _ => WritePlan.Apart.symm⟩

def doneOf (fates : List Fate) : List WritePlan :=
  (fates.filter fun fate => !fate.back).map fun fate => fate.write.plan

structure Fate.Judged (engine : Engine) (rows : Store) (fate : Fate) : Prop where
  ready : fate.back = false → engine.Ready rows fate.write.plan
  alone : ∃ current : Session,
    current.store.item? fate.write.plan.space fate.write.plan.key =
      rows.item? fate.write.plan.space fate.write.plan.key ∧
    ((engine.executeAlone fate.write.plan).exec current).1.isOk = !fate.back

variable {engine : Engine}

theorem mem_doneOf {fates : List Fate} {plan : WritePlan} :
    plan ∈ doneOf fates ↔ ∃ fate ∈ fates, fate.back = false ∧ fate.write.plan = plan := by
  simp [doneOf, and_assoc]

theorem ready_of_judged {rows : Store} {fates : List Fate}
    (judged : ∀ fate ∈ fates, fate.Judged engine rows) :
    ∀ plan ∈ doneOf fates, engine.Ready rows plan := by
  intro plan member
  obtain ⟨fate, listed, done, rfl⟩ := mem_doneOf.mp member
  exact (judged fate listed).ready done

/-- What has become of the first write of a batch that is answered: it is done, or it has changed
nothing and is left over. -/
theorem writeEach_ok {write : PlannedWrite} {rest left : List PlannedWrite}
    {session after : Session}
    (ok : (engine.writeEach (write :: rest)).exec session = (.ok left, after)) :
    (∃ outcome middle, (engine.executeAlone write.plan).exec session = (.ok outcome, middle) ∧
      (engine.writeEach rest).exec middle = (.ok left, after)) ∨
    ∃ failure middle others,
      (engine.executeAlone write.plan).exec session = (.error failure, middle) ∧
      middle.store = session.store ∧
      (engine.writeEach rest).exec middle = (.ok others, after) ∧ left = write :: others := by
  cases ran : (engine.executeAlone write.plan).exec session with
  | mk outcome middle =>
      rw [writeEach, exec_attempt_bind ran] at ok
      cases outcome with
      | ok outcome => exact Or.inl ⟨outcome, middle, rfl, ok⟩
      | error failure =>
          have kept := engine.atomic_executeAlone write.plan session failure middle ran
          by_cases passes : failure.code.isRetryable = true
          · simp only [passes, if_true] at ok
            obtain ⟨others, last, writing, ok⟩ := of_exec_bind_ok ok
            cases ok
            exact Or.inr ⟨failure, middle, others, rfl, kept, writing, rfl⟩
          · simp only [passes, Bool.false_eq_true, if_false] at ok
            cases ok

section Run

variable (quiet : ∀ hook ∈ engine.hooks, hook.Quiet)

include quiet

theorem executeAlone_writes {plan : WritePlan} (prepared : plan.Prepared)
    {session after : Session} {outcome : WriteOutcome}
    (ok : (engine.executeAlone plan).exec session = (.ok outcome, after)) :
    session.store.item? plan.space plan.key ≠ none ∧
      after.store = session.store.after (engine.writesOn session.store plan) := by
  obtain ⟨executed, ran, _, _, stored⟩ := engine.executeAlone_ok ok
  obtain ⟨found, effect, read, told, rfl, written, _⟩ := engine.execute_ok quiet prepared ran
  have read : session.store.item? plan.space plan.key = some found := read
  have told : engine.effectOn session.store plan = .ok effect := by
    rw [effectOn, read]
    exact told
  refine ⟨by simp [read], ?_⟩
  rw [writesOn, told]
  have known := effect_outcome told
  obtain ⟨outcome, writes, charges⟩ := effect
  cases outcome with
  | applied old new => exact stored.trans written
  | checked => exact stored.trans written
  | conditionFailed item =>
      have nothing : writes = [] := known.1
      rw [nothing]
      exact stored

/-- A batch goes through its writes in turn. Those that fail are left over, and the others write
what the rows tell that were there before the batch. -/
theorem writeEach_fates {rows : Store} {items : String → RowKey → Option Item}
    (records : Records engine.tables rows items) {writes : List PlannedWrite}
    (sound : ∀ write ∈ writes, write.plan.Sound engine.tables)
    (apart : (writes.map PlannedWrite.plan).Pairwise WritePlan.Apart) :
    ∀ {session after : Session} {left : List PlannedWrite},
      (∀ write ∈ writes, session.store.item? write.plan.space write.plan.key =
        rows.item? write.plan.space write.plan.key) →
      (engine.writeEach writes).exec session = (.ok left, after) →
      ∃ fates : List Fate, fates.map Fate.write = writes ∧
        left = (fates.filter Fate.back).map Fate.write ∧
        (∀ fate ∈ fates, fate.Judged engine rows) ∧
        after.store = session.store.after ((doneOf fates).flatMap (engine.writesOn rows)) := by
  induction writes with
  | nil =>
      intro session after left _ ok
      cases ok
      exact ⟨[], rfl, rfl, (fun _ none => nomatch none), rfl⟩
  | cons write rest ih =>
      intro session after left same ok
      obtain ⟨before, later⟩ := List.pairwise_cons.mp apart
      have sameHere := same write List.mem_cons_self
      have ih := @ih (fun other member => sound other (List.mem_cons_of_mem _ member)) later
      rcases writeEach_ok ok with
        ⟨outcome, middle, ran, going⟩ | ⟨failure, middle, others, ran, kept, going, rfl⟩
      · have soundHere := sound write List.mem_cons_self
        obtain ⟨readable, written⟩ := executeAlone_writes quiet soundHere.prepared ran
        rw [sameHere] at readable
        have ready := Ready.of_read records soundHere readable
        rw [writesOn_of_same sameHere] at written
        have untouched : ∀ other ∈ rest, middle.store.item? other.plan.space other.plan.key =
            rows.item? other.plan.space other.plan.key := by
          intro other member
          rw [written, item?_after_writesOn ready (before _ (List.mem_map_of_mem member))]
          exact same other (List.mem_cons_of_mem _ member)
        obtain ⟨fates, rfl, rfl, judged, more⟩ := ih untouched going
        refine ⟨⟨write, false⟩ :: fates, rfl, rfl, List.forall_mem_cons.mpr ⟨?_, judged⟩, ?_⟩
        · refine ⟨fun _ => ready, session, sameHere, ?_⟩
          rw [ran]
          rfl
        · rw [more, written, ← Store.after_append]
          rfl
      · have untouched : ∀ other ∈ rest, middle.store.item? other.plan.space other.plan.key =
            rows.item? other.plan.space other.plan.key := by
          intro other member
          rw [kept]
          exact same other (List.mem_cons_of_mem _ member)
        obtain ⟨fates, rfl, rfl, judged, more⟩ := ih untouched going
        refine ⟨⟨write, true⟩ :: fates, rfl, rfl, List.forall_mem_cons.mpr ⟨?_, judged⟩, ?_⟩
        · refine ⟨fun done => ?_, session, sameHere, ?_⟩
          · cases done
          · rw [ran]
            rfl
        · rw [more, kept]
          rfl

theorem writeAlone_writes {plan : WritePlan} (prepared : plan.Prepared) {session after : Session}
    {images : Option Item × Option Item}
    (ok : (engine.writeAlone plan).exec session = (.ok images, after)) :
    after.store = session.store.after (engine.writesOn session.store plan) := by
  obtain ⟨_, cleared, clearing, ok⟩ := of_exec_bind_ok ok
  cases clearing
  obtain ⟨outcome, executed, ran, last⟩ := of_exec_bind_ok ok
  have written := (executeAlone_writes quiet prepared ran).2
  cases outcome with
  | applied old new =>
      cases last
      exact written
  | checked =>
      cases last
      exact written
  | conditionFailed item => cases last

theorem writeSingle_writes {plan : WritePlan} (prepared : plan.Prepared)
    {attributes : WritePlan → Option Item × Option Item → Action (Option Item)}
    (still : ∀ plan images, (attributes plan images).Still) {capacity : Option CapacityDetail}
    {session after : Session} {response : WriteResponse}
    (ok : (engine.writeSingle (.ok plan) attributes capacity).exec session =
      (.ok response, after)) :
    after.store = session.store.after (engine.writesOn session.store plan) := by
  obtain ⟨found, planned, ok⟩ := (Still.ofExcept _ _).of_exec_bind_ok ok
  cases planned
  obtain ⟨images, middle, ran, ok⟩ := of_exec_bind_ok ok
  obtain ⟨shown, _, ok⟩ := (still plan images).of_exec_bind_ok ok
  cases ok
  exact writeAlone_writes quiet prepared ran

theorem writeSingle_answers (steady : ¬engine.Fragile) {plan : WritePlan} {session : Session}
    (ready : engine.Ready session.store plan) (unconditional : plan.Unconditional) :
    ∃ response after, (engine.writeSingle (.ok plan) (oldIfWanted none) none).exec session =
      (.ok response, after) := by
  obtain ⟨after, ran, _⟩ : ∃ after, (engine.executeAlone plan).exec { session with ledger := [] } =
      ((engine.effectOn session.store plan).map Effect.outcome, after) ∧ _ :=
    executeAlone_on quiet steady ready rfl
  obtain ⟨new, told⟩ := @effectOn_of_unconditional engine session.store _ unconditional
  rw [told] at ran
  have written : (engine.writeAlone plan).exec session = (.ok (_, new), after) :=
    (exec_bind_ok (exec_clearLedger session) _).trans (exec_bind_ok ran _)
  exact ⟨_, after, (exec_bind_ok rfl _).trans (exec_bind_ok written _)⟩

end Run

/-! The same write alone. -/

section Alone

variable {table : Table} {name : String} {write : BatchWrite} {plan : WritePlan}

theorem answer_telling (found : engine.tables.get? name = some table)
    (planned : (engine.planBatchWrite table write).result = .ok plan) :
    ∃ single, write.alone? name = some single ∧ ∀ capacity,
      engine.answer (single.telling capacity) =
        (do return .written (← engine.writeSingle (.ok plan) (oldIfWanted none) capacity)) := by
  have listed : (engine.table name).result = .ok table := by
    rw [Engine.table, found]
    rfl
  rw [planBatchWrite] at planned
  split at planned
  · rename_i item put delete
    refine ⟨_, by rw [BatchWrite.alone?, put, delete], fun capacity => ?_⟩
    have same : engine.planOfPut ⟨name, item, none, .none, none, none, capacity⟩ = .ok plan := by
      rw [planOfPut, listed]
      exact planned
    rw [Request.telling, answer, putItem_eq, same]
  · rename_i key put delete
    refine ⟨_, by rw [BatchWrite.alone?, put, delete], fun capacity => ?_⟩
    have same : engine.planOfDelete ⟨name, key, none, .none, none, none, capacity⟩ = .ok plan := by
      rw [planOfDelete, listed]
      exact planned
    rw [Request.telling, answer, deleteItem_eq, same]
  · cases planned

theorem answer_alone (found : engine.tables.get? name = some table)
    (planned : (engine.planBatchWrite table write).result = .ok plan) :
    ∃ single, write.alone? name = some single ∧ engine.answer single =
      (do return .written (← engine.writeSingle (.ok plan) (oldIfWanted none) none)) := by
  obtain ⟨single, asked, told⟩ := answer_telling found planned
  have same := told none
  rw [BatchWrite.telling_none asked] at same
  exact ⟨single, asked, same⟩

/-- The rows that the write is about are those that the request for it alone leaves, whatever quiet
hooks there are and whatever the store refuses, where it is answered. Where nothing is refused it
is. -/
structure LeavesAsAlone (engine : Engine) (session : Session) (rows : Store)
    (write : PlannedWrite) : Prop where
  agrees : ∀ hooks faults, (∀ hook ∈ hooks, hook.Quiet) → ∀ single response after,
    write.request.alone? write.table = some single →
    Engine.handle { engine with hooks, faults } single session = (.ok response, after) →
    write.plan.Agree rows after.store
  answered : ∃ single response after, write.request.alone? write.table = some single ∧
    Engine.handle { engine with hooks := [], faults := [] } single session = (.ok response, after)

theorem leavesAsAlone {session : Session} {rows : Store} {write : PlannedWrite}
    (found : engine.tables.get? write.table = some table)
    (planned : (engine.planBatchWrite table write.request).result = .ok write.plan)
    (ready : engine.Ready session.store write.plan)
    (agree : write.plan.Agree rows
      (session.store.after (engine.writesOn session.store write.plan))) :
    engine.LeavesAsAlone session rows write := by
  constructor
  · intro hooks faults quiet single response after asked ok
    let other : Engine := { engine with hooks, faults }
    have planned : (other.planBatchWrite table write.request).result = .ok write.plan := planned
    obtain ⟨_, given, same⟩ := @answer_alone other _ _ _ _ found planned
    cases asked.symm.trans given
    have ok : (other.answer single).exec session = (.ok response, after) := ok
    rw [same] at ok
    obtain ⟨written, middle, ran, last⟩ := of_exec_bind_ok ok
    cases last
    have stored := @writeSingle_writes other quiet _ ready.sound.prepared _ (still_oldIfWanted none)
      _ _ _ _ ran
    rw [stored]
    exact agree
  · let bare : Engine := { engine with hooks := [], faults := [] }
    have planned : (bare.planBatchWrite table write.request).result = .ok write.plan := planned
    obtain ⟨single, given, same⟩ := @answer_alone bare _ _ _ _ found planned
    have readyBare : bare.Ready session.store write.plan :=
      ⟨ready.sound, ready.readable, ready.keyed⟩
    have steady : ¬bare.Fragile := by
      rintro (faulty | ⟨_, member, _⟩)
      · exact faulty rfl
      · cases member
    have quiet : ∀ hook ∈ bare.hooks, hook.Quiet := List.forall_mem_nil _
    obtain ⟨response, after, ran⟩ :=
      writeSingle_answers quiet steady readyBare (bare.planBatchWrite_ok planned).2
    refine ⟨single, .written response, after, given, ?_⟩
    show (bare.answer single).exec session = _
    rw [same, exec_bind_ok ran]
    rfl

end Alone

/-! The rows after several plans. -/

section Rows

variable {rows : Store} {plans : List WritePlan} (ready : ∀ plan ∈ plans, engine.Ready rows plan)

include ready

theorem get?_after_plans_elsewhere {space : Space} {key : RowKey}
    (untouched : ∀ plan ∈ plans, ¬plan.Touches space key) (current : Store) :
    (current.after (plans.flatMap (engine.writesOn rows))).get? space key =
      current.get? space key := by
  refine Store.get?_after_elsewhere current fun write member sameSpace sameKey => ?_
  obtain ⟨plan, listed, written⟩ := List.mem_flatMap.mp member
  have touches := touches_of_mem_writesOn (ready plan listed) written
  rw [sameSpace, sameKey] at touches
  exact untouched plan listed touches

theorem agree_after_plans (distinct : DistinctIndexes engine.tables)
    (apart : plans.Pairwise WritePlan.Apart) {plan : WritePlan} (member : plan ∈ plans)
    (current : Store) : plan.Agree (current.after (plans.flatMap (engine.writesOn rows)))
      (current.after (engine.writesOn rows plan)) := by
  intro space key touches
  obtain ⟨before, later, rfl⟩ := List.append_of_mem member
  have perm : (before ++ plan :: later).Perm (plan :: (before ++ later)) := List.perm_middle
  have first := (List.pairwise_cons.mp ((perm.pairwise_iff WritePlan.Apart.symm).mp apart)).1
  have others : ∀ other ∈ before ++ later, engine.Ready rows other :=
    fun other there => ready other (perm.mem_iff.mpr (List.mem_cons_of_mem _ there))
  rw [← after_writesOn_perm distinct ready apart perm, List.flatMap_cons, Store.after_append]
  refine get?_after_plans_elsewhere others (fun other there => ?_) _
  exact (first other there).disjoint distinct (ready plan member).sound.listed
    (others other there).sound.listed touches

end Rows

theorem agree_of_back {rows : Store} {fates : List Fate}
    (ready : ∀ plan ∈ doneOf fates, engine.Ready rows plan) (distinct : DistinctIndexes engine.tables)
    (sound : ∀ fate ∈ fates, fate.write.plan.Sound engine.tables)
    (apart : fates.Pairwise fun fate other => fate.write.plan.Apart other.write.plan)
    {fate : Fate} (member : fate ∈ fates) (back : fate.back = true) (current : Store) :
    fate.write.plan.Agree (current.after ((doneOf fates).flatMap (engine.writesOn rows)))
      current := by
  intro space key touches
  refine get?_after_plans_elsewhere ready (fun plan done => ?_) _
  obtain ⟨other, there, notBack, rfl⟩ := mem_doneOf.mp done
  have different : fate ≠ other := by
    rintro rfl
    rw [back] at notBack
    cases notBack
  exact WritePlan.Apart.disjoint distinct (sound _ member).listed (sound _ there).listed
    (apart.forall member there different) touches

/-! Batches as a whole. -/

/-- What has become of each write of a batch that is answered. -/
structure Accounts (engine : Engine) (request : BatchWriteRequest) (session : Session)
    (response : BatchWriteResponse) (after : Session) (fates : List Fate) : Prop where
  unknown : ∀ name, engine.tables.get? name = none →
    response.unprocessed.get? name = request.tables.get? name
  asked : ∀ name table, engine.tables.get? name = some table →
    (fates.filter fun fate => fate.write.table == name).map (fun fate => fate.write.request) =
      (request.tables.get? name).getD []
  left : ∀ name table, engine.tables.get? name = some table →
    (response.unprocessed.get? name).getD [] =
      (fates.filter fun fate => fate.write.table == name && fate.back).map
        fun fate => fate.write.request
  planned : ∀ fate ∈ fates, ∃ table, engine.tables.get? fate.write.table = some table ∧
    (engine.planBatchWrite table fate.write.request).result = .ok fate.write.plan
  back : ∀ fate ∈ fates, fate.back = true → fate.write.plan.Agree after.store session.store
  done : ∀ fate ∈ fates, fate.back = false →
    engine.LeavesAsAlone session after.store fate.write
  elsewhere : ∀ space key, (∀ fate ∈ fates, ¬fate.write.plan.Touches space key) →
    after.store.get? space key = session.store.get? space key

section Batch

variable {session : Session} {items : String → RowKey → Option Item} (named : Named engine.tables)
  (distinct : DistinctIndexes engine.tables) (quiet : ∀ hook ∈ engine.hooks, hook.Quiet)
  (records : Records engine.tables session.store items) {request : BatchWriteRequest}
  (ordered : (Request.batchWrite request).Ordered)

include named distinct quiet records ordered

theorem batchWriteIn_accounts (ascending : request.tables.Ascending)
    {order : List (Table × List BatchWrite)} (perm : order.Perm (engine.knownTables request.tables))
    {response : BatchWriteResponse} {after : Session}
    (ok : (engine.batchWriteIn order request).exec session = (.ok response, after)) :
    ∃ fates, engine.Accounts request session response after fates := by
  obtain ⟨writes, left, planned, writing, unprocessed, _⟩ := batchWriteIn_ok ok
  have sound := planBatchWrites_sound (ordered_writesOf named ordered perm) planned
  obtain ⟨_, rfl, fits, apart, _⟩ := plansWrite_of_ok planned
  obtain ⟨fates, rfl, rfl, judged, stored⟩ :=
    writeEach_fates quiet records sound apart (by exact fun _ _ => rfl) writing
  have stored : after.store =
      session.store.after ((doneOf fates).flatMap (engine.writesOn session.store)) := stored
  have known : ∀ fate ∈ fates, ∃ table, engine.tables.get? fate.write.table = some table ∧
      (engine.planBatchWrite table fate.write.request).result = .ok fate.write.plan := by
    intro fate member
    obtain ⟨table, found, _, made⟩ :=
      planned_of_plansWrite named perm fits _ (List.mem_map_of_mem member)
    exact ⟨table, found, made⟩
  have ready := ready_of_judged judged
  rw [List.map_map] at apart
  have apartDone : (doneOf fates).Pairwise WritePlan.Apart :=
    apart.sublist (List.filter_sublist.map _)
  refine ⟨fates, ?_, ?_, ?_, known, ?_, ?_, ?_⟩
  · intro name missing
    rw [unprocessed, get?_handBack_of_ne, get?_unknownTables, Dict.contains, missing]
    · rfl
    · intro write member same
      obtain ⟨fate, listed, rfl⟩ := List.mem_map.mp member
      obtain ⟨table, found, _⟩ := known fate (List.mem_filter.mp listed).1
      rw [same, missing] at found
      cases found
  · intro name table listed
    have same := requests_of_plansWrite named listed ascending perm fits
    rw [List.filter_map, List.map_map] at same
    exact same
  · intro name table listed
    rw [unprocessed, get?_handBack, get?_unknownTables, Dict.contains, listed, List.filter_map,
      List.map_map, List.filter_filter]
    rfl
  · intro fate member back
    rw [stored]
    exact agree_of_back ready distinct (fun other there => sound _ (List.mem_map_of_mem there))
      (List.pairwise_map.mp apart) member back _
  · intro fate member done
    obtain ⟨table, found, planned⟩ := known fate member
    refine leavesAsAlone found planned ((judged fate member).ready done) ?_
    rw [stored]
    exact agree_after_plans ready distinct apartDone (mem_doneOf.mpr ⟨fate, member, done, rfl⟩) _
  · intro space key untouched
    rw [stored]
    refine get?_after_plans_elsewhere ready (fun plan done => ?_) _
    obtain ⟨fate, listed, _, rfl⟩ := mem_doneOf.mp done
    exact untouched fate listed

end Batch

/-! The order of the tables. -/

theorem store_still_bind {α β : Type} {action : Action α} (still : action.Still)
    {next other : α → Action β} {session : Session}
    (later : ∀ value,
      ((next value).exec session).2.store = ((other value).exec session).2.store) :
    ((action >>= next).exec session).2.store = ((action >>= other).exec session).2.store := by
  rw [exec_bind_still still, exec_bind_still still]
  cases action.result with
  | error failure => rfl
  | ok value => exact later value

/-- The part of a batch that comes after its plans. -/
def carryOut (engine : Engine) (request : BatchWriteRequest) (planned : List PlannedWrite) :
    Action BatchWriteResponse := do
  clearLedger
  let left ← engine.writeEach planned
  return {
    unprocessed := handBack (engine.unknownTables request.tables) left
    consumed := ← consumedAll request.capacity }

theorem store_carryOut (request : BatchWriteRequest) (planned : List PlannedWrite)
    {session : Session} : ((engine.carryOut request planned).exec session).2.store =
      ((engine.writeEach planned).exec { session with ledger := [] }).2.store := by
  rw [carryOut, exec_bind_ok (exec_clearLedger session), exec_bind]
  rcases (engine.writeEach planned).exec { session with ledger := [] } with
    ⟨failure | left, after⟩ <;> rfl

section Order

variable {session : Session} {items : String → RowKey → Option Item} (named : Named engine.tables)
  (distinct : DistinctIndexes engine.tables) (quiet : ∀ hook ∈ engine.hooks, hook.Quiet)
  (blind : ∀ hook ∈ engine.hooks, hook.Blind engine.faults)
  (records : Records engine.tables session.store items)

def succeedsFirst (engine : Engine) (session : Session) (write : PlannedWrite) : Bool :=
  ((engine.executeAlone write.plan).exec session).1.isOk

include blind in
theorem doneOf_eq {fates : List Fate} (judged : ∀ fate ∈ fates, fate.Judged engine session.store) :
    doneOf fates = ((fates.map Fate.write).filter (engine.succeedsFirst session)).map
      PlannedWrite.plan := by
  rw [doneOf, List.filter_map, List.map_map]
  refine congrArg (List.map _) (List.filter_congr fun fate member => ?_)
  obtain ⟨current, same, alone⟩ := (judged fate member).alone
  rw [← alone, executeAlone_outcome blind same]
  rfl

include quiet blind records

/-- A batch carries out the writes that succeed when they are the first. -/
theorem writeEach_blind {writes : List PlannedWrite}
    (sound : ∀ write ∈ writes, write.plan.Sound engine.tables)
    (unconditional : ∀ write ∈ writes, write.plan.Unconditional)
    (apart : (writes.map PlannedWrite.plan).Pairwise WritePlan.Apart) :
    (∀ plan ∈ (writes.filter (engine.succeedsFirst session)).map PlannedWrite.plan,
      engine.Ready session.store plan) ∧
    ((engine.writeEach writes).exec { session with ledger := [] }).2.store = session.store.after
      (((writes.filter (engine.succeedsFirst session)).map PlannedWrite.plan).flatMap
        (engine.writesOn session.store)) := by
  obtain ⟨left, after, ran⟩ := engine.total_writeEach
    (fun write member => ⟨(sound write member).prepared, unconditional write member⟩)
    { session with ledger := [] }
  obtain ⟨fates, rfl, _, judged, stored⟩ :=
    writeEach_fates quiet records sound apart (by exact fun _ _ => rfl) ran
  rw [ran, ← doneOf_eq blind judged]
  exact ⟨ready_of_judged judged, stored⟩

include named distinct

theorem batchWriteIn_store {request : BatchWriteRequest}
    (ordered : (Request.batchWrite request).Ordered) {order : List (Table × List BatchWrite)}
    (perm : order.Perm (engine.knownTables request.tables)) :
    ((engine.batchWriteIn order request).exec session).2.store =
      ((engine.batchWrite request).exec session).2.store := by
  refine store_still_bind (Still.require _ _) fun _ => ?_
  refine store_still_bind (Still.require _ _) fun _ => ?_
  show ((engine.planBatchWrites [] (writesOf order) >>= engine.carryOut request).exec
      session).2.store =
    ((engine.planBatchWrites [] (engine.batchedWrites request) >>= engine.carryOut request).exec
      session).2.store
  have reordered : (writesOf order).Perm (engine.batchedWrites request) := perm.flatMap_right _
  rw [exec_bind_still (engine.still_planBatchWrites _ _),
    exec_bind_still (engine.still_planBatchWrites _ _)]
  cases planned : (engine.planBatchWrites [] (engine.batchedWrites request)).result with
  | error failure =>
      cases otherwise : (engine.planBatchWrites [] (writesOf order)).result with
      | error other => rfl
      | ok writes =>
          obtain ⟨_, again, _⟩ := planBatchWrites_perm reordered.symm otherwise
          rw [planned] at again
          cases again
  | ok writes =>
      obtain ⟨others, alsoPlanned, same⟩ := planBatchWrites_perm reordered planned
      rw [alsoPlanned]
      refine (store_carryOut request others).trans
        (Eq.trans ?_ (store_carryOut request writes).symm)
      have sound := planBatchWrites_sound (ordered_batchedWrites named ordered) planned
      have unconditional : ∀ write ∈ writes, write.plan.Unconditional :=
        fun write member => (engine.planBatchWrites_ok planned write member).2
      have apart := planBatchWrites_apart planned
      obtain ⟨ready, stored⟩ := writeEach_blind quiet blind records sound unconditional apart
      obtain ⟨_, otherStored⟩ := writeEach_blind quiet blind records
        (fun write member => sound write (same.mem_iff.mp member))
        (fun write member => unconditional write (same.mem_iff.mp member))
        (planBatchWrites_apart alsoPlanned)
      rw [stored, otherStored]
      exact after_writesOn_perm distinct ready (apart.sublist (List.filter_sublist.map _))
        ((same.filter _).map _).symm session.store

end Order

/-! Batches that are rejected. -/

theorem le_sumOf_of_mem {α : Type} (measure : α → Nat) {values : List α} {value : α}
    (member : value ∈ values) : measure value ≤ sumOf measure values := by
  induction values with
  | nil => cases member
  | cons first rest ih =>
      rcases List.mem_cons.mp member with rfl | there
      · exact Nat.le_add_right _ _
      · exact Nat.le_trans (ih there) (Nat.le_add_left _ _)

def RejectsRepeated (engine : Engine) (request : BatchWriteRequest) (session : Session) : Prop :=
  ∀ order : List (Table × List BatchWrite), order.Perm (engine.knownTables request.tables) →
    ∃ failure, (engine.batchWriteIn order request).exec session = (.error failure, session) ∧
      (sumOf (fun entry => entry.2.length) request.tables ≤ maxBatchWrites →
        (∀ asked ∈ engine.batchedWrites request, ∃ plan,
          (engine.planBatchWrite asked.1 asked.2).result = .ok plan) →
        failure = .request .repeatedKey)

theorem rejectsRepeated (named : Named engine.tables) {request : BatchWriteRequest}
    (ascending : request.tables.Ascending) {name : String} {table : Table}
    (listed : engine.tables.get? name = some table) {first second : BatchWrite}
    (pair : [first, second].Sublist ((request.tables.get? name).getD []))
    (same : table.SameKey first second) (session : Session) :
    engine.RejectsRepeated request session := by
  intro order perm
  have asked : [(table, first), (table, second)].Sublist (writesOf order) := by
    refine (pair.map fun write => (table, write)).trans ?_
    rw [← filter_writesOf named listed ascending perm]
    exact List.filter_sublist
  have nonempty : sumOf (fun entry => entry.2.length) request.tables ≠ 0 := by
    cases found : request.tables.get? name with
    | none =>
        rw [found] at pair
        cases pair
    | some writes =>
        rw [found] at pair
        have counted := le_sumOf_of_mem (fun entry : String × List BatchWrite => entry.2.length)
          (Dict.mem_of_get?_eq_some found)
        have two : 2 ≤ writes.length := pair.length_le
        dsimp only at counted
        omega
  rw [batchWriteIn, exec_bind_still (Still.require _ _),
    require_ok_iff.mpr (decide_eq_true nonempty)]
  dsimp only
  rw [exec_bind_still (Still.require _ _)]
  cases sized : (require (sumOf (fun entry => entry.2.length) request.tables ≤ maxBatchWrites)
      (.tooManyBatchWrites (sumOf (fun entry => entry.2.length) request.tables))).result with
  | error failure =>
      refine ⟨failure, rfl, fun few => ?_⟩
      rw [require_ok_iff.mpr (decide_eq_true few)] at sized
      cases sized
  | ok _ =>
      cases planned : (engine.planBatchWrites [] (writesOf order)).result with
      | ok writes =>
          have differ := (not_sameKey_of_ok planned).sublist asked
          exact absurd same ((List.pairwise_cons.mp differ).1 _ List.mem_cons_self rfl)
      | error failure =>
          have refused : (engine.planBatchWrites [] (writesOf order)).exec session =
              (.error failure, session) := by
            rw [engine.still_planBatchWrites, planned]
          refine ⟨failure, exec_bind_error refused _, fun _ each => ?_⟩
          have each : ∀ asked ∈ writesOf order, ∃ plan,
              (engine.planBatchWrite asked.1 asked.2).result = .ok plan :=
            fun asked member => each asked ((perm.flatMap_right _).mem_iff.mp member)
          exact (planBatchWrites_failsAs each []).of_result planned

/-- A batch loses no write and repeats none, whichever table is visited first. -/
structure Conserves (engine : Engine) (request : BatchWriteRequest) (session : Session) :
    Prop where
  answered : ∀ order : List (Table × List BatchWrite),
    order.Perm (engine.knownTables request.tables) → ∀ response after,
      (engine.batchWriteIn order request).exec session = (.ok response, after) →
      ∃ fates, engine.Accounts request session response after fates
  anyOrder : (∀ hook ∈ engine.hooks, hook.Blind engine.faults) →
    ∀ order : List (Table × List BatchWrite), order.Perm (engine.knownTables request.tables) →
      ((engine.batchWriteIn order request).exec session).2.store =
        ((engine.batchWrite request).exec session).2.store
  repeated : ∀ name table, engine.tables.get? name = some table → ∀ first second,
    [first, second].Sublist ((request.tables.get? name).getD []) → table.SameKey first second →
    engine.RejectsRepeated request session

end Engine

/-- In every store that requests lead to, every write of a batch that is answered is either handed
back, and has changed nothing, or has done what it does alone; the order of the tables makes no
difference, and two writes about equal keys are not both accepted. -/
theorem Reachable.conserves {engine : Engine} (named : Named engine.tables)
    (distinct : DistinctIndexes engine.tables) (quiet : ∀ hook ∈ engine.hooks, hook.Quiet)
    {session : Session} (reachable : Reachable engine.tables session.store)
    {request : BatchWriteRequest} (ascending : request.tables.Ascending)
    (ordered : (Request.batchWrite request).Ordered) : engine.Conserves request session := by
  obtain ⟨items, records⟩ := reachable.records named
  refine ⟨fun order perm response after ok => ?_, fun blind order perm => ?_, ?_⟩
  · exact Engine.batchWriteIn_accounts named distinct quiet records ordered ascending perm ok
  · exact Engine.batchWriteIn_store named distinct quiet blind records ordered perm
  · exact fun name table listed first second pair same =>
      Engine.rejectsRepeated named ascending listed pair same session

/-! A batch in a table whose notes cannot be removed, and in one that is not there. -/

namespace LastingNotes

def notes : Table := ⟨"notes", "id", none, [⟨"by-tag", "tag", none, .all⟩], none⟩

def engine : Engine :=
  ⟨[("notes", notes)], Config.default, [Hook.fail (some .remove) none "notes stay"], [], 0⟩

def note (id tag : String) : Item := [("id", .string id), ("tag", .string tag)]

def session : Session :=
  (engine.handle (.putItem ⟨"notes", note "a" "x", none, .none, none, none, none⟩)
    (Session.ofStore .empty)).2

def batch : BatchWriteRequest :=
  ⟨[("gone", [⟨some (note "a" "x"), none⟩]),
    ("notes", [⟨none, some [("id", .string "a")]⟩, ⟨some (note "b" "x"), none⟩])], none⟩

theorem conserves_batch : (∃ response after,
      (engine.batchWrite batch).exec session = (.ok response, after) ∧
      response.unprocessed.map (fun entry => (entry.1, entry.2.length)) =
        [("gone", 1), ("notes", 1)]) ∧
    engine.Conserves batch session := by
  have quiet : ∀ hook ∈ engine.hooks, hook.Quiet := by
    intro hook member faults change transaction
    rw [List.mem_singleton.mp member, Hook.fail]
    split <;> rfl
  have reachable : Reachable engine.tables session.store :=
    .request .empty rfl quiet ⟨by decide, by decide⟩
  have answered : ((engine.batchWrite batch).exec session).1.toOption.any (fun response =>
      response.unprocessed.map (fun entry => (entry.1, entry.2.length)) ==
        [("gone", 1), ("notes", 1)]) = true := by decide +kernel
  obtain ⟨response, after, ran, listed⟩ := Action.ok_of_any answered
  have ordered : ∀ entry ∈ batch.tables, ∀ write ∈ entry.2, write.Ordered := by decide
  exact ⟨⟨response, after, ran, eq_of_beq listed⟩,
    reachable.conserves (named_of_entries (by decide)) (distinctIndexes_of_entries (by decide))
      quiet (by decide) ordered⟩

end LastingNotes
end ItemStore
