import ItemStore.Proofs.Engine.BatchWrites
import ItemStore.Proofs.Engine.Notes

/-!
The changes that a hook is told of make up the tables. Replayed on an empty map in the order in
which they were committed, each finds there the item that it says was stored before it, and the last
leaves what the tables hold. That is so of what is stored, whether requests still see it or not.
-/

namespace ItemStore

/-! Replaying changes. -/

namespace Change

def key? (tables : Dict String Table) (change : Change) : Option RowKey :=
  (tables.get? change.table).bind fun table => (table.rowKey change.keys).toOption

end Change

def BatchWrite.key? (tables : Dict String Table) (name : String) (write : BatchWrite) :
    Option RowKey :=
  (tables.get? name).bind fun table =>
    write.target?.bind fun item => (table.rowKey item).toOption

/-- Whether a write about the item of the change is handed back. -/
def Change.handedBack (tables : Dict String Table) (unprocessed : Dict String (List BatchWrite))
    (change : Change) : Bool :=
  ((unprocessed.get? change.table).getD []).any fun write =>
    write.key? tables change.table == change.key? tables

def Response.unprocessedWrites : Response → Dict String (List BatchWrite)
  | .batchWrite response => response.unprocessed
  | .item _ | .written _ | .page _ | .batchGet _ | .transactGet _ | .transactWrite _ => []

namespace PlainMap

def replayOne (tables : Dict String Table) (map : PlainMap) (change : Change) : PlainMap :=
  fun name key =>
    if name = change.table ∧ some key = change.key? tables then
      match change.kind with
      | .insert | .modify => change.new
      | .remove => none
    else map name key

def replay (tables : Dict String Table) (map : PlainMap) (changes : List Change) : PlainMap :=
  changes.foldl (replayOne tables) map

end PlainMap

/-- A change of what the map binds: its old image is bound to its key, and its kind says which of
its images there are. -/
structure Change.Fits (tables : Dict String Table) (map : PlainMap) (change : Change) : Prop where
  old : ∃ key, change.key? tables = some key ∧ change.old = map change.table key
  inserts : change.kind = .insert ↔ change.old = none
  removes : change.kind = .remove ↔ change.new = none

def Coherent (tables : Dict String Table) : PlainMap → List Change → Prop
  | _, [] => True
  | map, change :: rest => change.Fits tables map ∧ Coherent tables (map.replayOne tables change) rest

theorem Coherent.append {tables : Dict String Table} {map : PlainMap} {first second : List Change}
    (early : Coherent tables map first)
    (late : Coherent tables (map.replay tables first) second) :
    Coherent tables map (first ++ second) := by
  induction first generalizing map with
  | nil => exact late
  | cons change rest ih => exact ⟨early.1, ih early.2 late⟩

theorem PlainMap.replay_append (tables : Dict String Table) (map : PlainMap)
    (first second : List Change) :
    map.replay tables (first ++ second) = (map.replay tables first).replay tables second :=
  List.foldl_append

structure LeadsTo (tables : Dict String Table) (map : PlainMap) (changes : List Change)
    (rows : Store) : Prop where
  coherent : Coherent tables map changes
  records : Records tables rows (map.replay tables changes)

theorem LeadsTo.append {tables : Dict String Table} {map : PlainMap} {first second : List Change}
    {middle rows : Store} (early : LeadsTo tables map first middle)
    (late : LeadsTo tables (map.replay tables first) second rows) :
    LeadsTo tables map (first ++ second) rows := by
  refine ⟨early.coherent.append late.coherent, ?_⟩
  rw [PlainMap.replay_append]
  exact late.records

namespace Engine

open Action

variable {engine : Engine}

/-! What hooks are told of one plan. -/

theorem replace_ok (observed : engine.Observed) {plan : WritePlan} {stored new : Option Item}
    {session after : Session} {outcome : WriteOutcome}
    (ok : (engine.replace plan stored new).exec session = (.ok outcome, after)) :
    outcome = .applied (engine.visible plan.table stored) new ∧
      after.journal = session.journal ++ changeBetween plan stored new := by
  obtain ⟨_, based, basing, ok⟩ := of_exec_bind_ok ok
  obtain ⟨_, indexed, indexing, ok⟩ := of_exec_bind_ok ok
  obtain ⟨_, announced, announcing, ok⟩ := of_exec_bind_ok ok
  rw [exec_announce observed] at announcing
  cases announcing
  cases ok
  have first := (notes_writeBase plan stored new).journal_eq basing
  have second := (Notes.forM (notes_maintainIndex plan.table stored new) _).journal_eq indexing
  exact ⟨rfl, by rw [second, first]⟩

def changesOf (plan : WritePlan) (stored : Option Item) : WriteOutcome → List Change
  | .applied _ new => changeBetween plan stored new
  | .checked | .conditionFailed _ => []

theorem journal_execute (observed : engine.Observed) {plan : WritePlan} {session after : Session}
    {outcome : WriteOutcome} (ok : (engine.execute plan).exec session = (.ok outcome, after)) :
    ∃ stored, session.transaction.rows.item? plan.space plan.key = some stored ∧
      after.journal = session.journal ++ changesOf plan stored outcome := by
  obtain ⟨stored, loaded, loading, rest⟩ := of_exec_bind_ok ok
  obtain ⟨read, rfl⟩ := load_ok loading
  refine ⟨stored, read, ?_⟩
  obtain ⟨held, _, rest⟩ := (still_conditionHolds _ _).of_exec_bind_ok rest
  have replaced : ∀ new, (engine.replace plan stored new).exec loaded = (.ok outcome, after) →
      after.journal = loaded.journal ++ changesOf plan stored outcome := by
    intro new ok
    obtain ⟨rfl, noted⟩ := replace_ok observed ok
    exact noted
  cases held with
  | false =>
      cases rest
      exact (List.append_nil _).symm
  | true =>
      simp only [if_true] at rest
      split at rest
      · cases rest
        exact (List.append_nil _).symm
      · exact replaced _ rest
      · obtain ⟨item, _, rest⟩ := (still_updatedItem _ _ _).of_exec_bind_ok rest
        exact replaced _ rest
      · exact replaced _ rest

/-! What the change of a plan makes of the map. -/

variable {plan : WritePlan} {map : PlainMap} {rows : Store}

theorem key?_of_plan {tables : Dict String Table} (sound : plan.Sound tables) (kind : ChangeKind)
    (stored new : Option Item) :
    Change.key? tables ⟨plan.table.name, kind, plan.keyItem, stored, new⟩ = some plan.key := by
  rw [Change.key?, sound.listed, Option.bind_some, sound.prepared.key]
  rfl

theorem replay_changeBetween {tables : Dict String Table} (sound : plan.Sound tables)
    (new : Option Item) :
    map.replay tables (changeBetween plan (map.bound plan) new) = itemsAfter map plan new := by
  have one : ∀ kind stored, (kind = .remove → new = none) →
      map.replayOne tables ⟨plan.table.name, kind, plan.keyItem, stored, new⟩ =
        itemsAfter map plan new := by
    intro kind stored removed
    funext name key
    simp only [PlainMap.replayOne, key?_of_plan sound, Option.some_inj, itemsAfter]
    cases kind with
    | insert => rfl
    | modify => rfl
    | remove => rw [removed rfl]
  cases stored : map.bound plan with
  | none =>
      cases new with
      | none =>
          -- Nothing is bound and nothing comes in its place.
          funext name key
          show map name key = itemsAfter map plan none name key
          rw [itemsAfter]
          split
          · rename_i here
            rw [here.1, here.2]
            exact stored
          · rfl
      | some item => exact one .insert none fun same => by cases same
  | some old =>
      cases new with
      | none => exact one .remove (some old) fun _ => rfl
      | some item => exact one .modify (some old) fun same => by cases same

theorem coherent_changeBetween {tables : Dict String Table} (sound : plan.Sound tables)
    (new : Option Item) : Coherent tables map (changeBetween plan (map.bound plan) new) := by
  have fits : ∀ kind, (kind = .insert ↔ map.bound plan = none) → (kind = .remove ↔ new = none) →
      Change.Fits tables map ⟨plan.table.name, kind, plan.keyItem, map.bound plan, new⟩ :=
    fun kind inserts removes => ⟨⟨plan.key, key?_of_plan sound _ _ _, rfl⟩, inserts, removes⟩
  rw [changeBetween]
  split
  · exact trivial
  · rename_i kind between
    refine ⟨fits kind ?_ ?_, trivial⟩
    all_goals
      cases stored : map.bound plan <;> cases new <;> rw [stored] at between <;> cases between <;>
        simp

theorem execute_leadsTo (observed : engine.Observed) (sound : plan.Sound engine.tables)
    {session after : Session} {outcome : WriteOutcome}
    (records : Records engine.tables session.transaction.rows map)
    (ok : (engine.execute plan).exec session = (.ok outcome, after)) :
    ∃ stored, after.journal = session.journal ++ changesOf plan stored outcome ∧
      LeadsTo engine.tables map (changesOf plan stored outcome) after.transaction.rows := by
  obtain ⟨stored, read, noted⟩ := journal_execute observed ok
  obtain ⟨found, effect, same, told, became, written, _⟩ :=
    engine.execute_ok observed.quiet sound.prepared ok
  rw [read] at same
  cases same
  refine ⟨stored, noted, ?_⟩
  have storedIs : map.bound plan = stored := records.item?_eq sound.listed read
  have known := effect_outcome told
  have nothing : effect.writes = [] → LeadsTo engine.tables map [] after.transaction.rows := by
    intro none
    rw [written, none]
    exact ⟨trivial, records⟩
  cases outcome with
  | applied old new =>
      have before : ∀ item, stored = some item →
          item.Ordered ∧ plan.table.rowKey item = .ok plan.key := by
        intro item same
        have accepted :=
          records.accepted plan.table sound.listed plan.key item (storedIs.trans same)
        exact ⟨accepted.ordered, accepted.keyed⟩
      have accepted := accepted_of_applied sound before told became
      rw [became] at known
      rw [written, known, changesOf, ← storedIs]
      refine ⟨coherent_changeBetween sound new, ?_⟩
      rw [replay_changeBetween sound]
      exact replacement_records records sound.listed accepted
  | checked =>
      rw [became] at known
      exact nothing known
  | conditionFailed item =>
      rw [became] at known
      exact nothing known.1

theorem rows_of_unnoted (observed : engine.Observed) (prepared : plan.Prepared)
    {session after : Session} {outcome : WriteOutcome}
    (ok : (engine.execute plan).exec session = (.ok outcome, after))
    (unnoted : after.journal = session.journal) :
    after.transaction.rows = session.transaction.rows := by
  obtain ⟨stored, read, noted⟩ := journal_execute observed ok
  obtain ⟨found, effect, same, told, became, written, _⟩ :=
    engine.execute_ok observed.quiet prepared ok
  rw [read] at same
  cases same
  rw [unnoted] at noted
  have quietly : changesOf plan stored outcome = [] := List.self_eq_append_right.mp noted
  have known := effect_outcome told
  have nothing : effect.writes = [] := by
    cases outcome with
    | applied old new =>
        rw [became] at known
        rw [known]
        cases stored <;> cases new <;> cases quietly
        simp [replacement, baseWrites, indexWrites, indexSteps, oldIndexRow, stepsBetween]
    | checked =>
        rw [became] at known
        exact known
    | conditionFailed item =>
        rw [became] at known
        exact known.1
  rw [written, nothing, Store.after_nil]

end Engine

/-! What is noted in the course of an action that succeeds leads from the rows of the store before
it to those after it. -/

namespace Action

variable {α β : Type} {tables : Dict String Table}

def Streams (tables : Dict String Table) (action : Action α) : Prop :=
  ∀ map session value after, Records tables session.store map →
    action.exec session = (.ok value, after) →
    ∃ changes, after.journal = session.journal ++ changes ∧
      LeadsTo tables map changes after.store

theorem Streams.of_keeps {action : Action α} (keeps : action.Keeps)
    (silent : action.Notes fun _ => False) : action.Streams tables := by
  intro map session value after records ok
  have kept := keeps session
  rw [ok] at kept
  refine ⟨[], ?_, trivial, ?_⟩
  · rw [List.append_nil]
    exact silent.journal_eq ok
  · exact kept ▸ records

theorem Still.streams {action : Action α} (still : action.Still) : action.Streams tables :=
  Streams.of_keeps still.keeps still.notes

theorem Streams.bind {action : Action α} {next : α → Action β} (first : action.Streams tables)
    (second : ∀ value session middle, action.exec session = (.ok value, middle) →
      (next value).Streams tables) : (action >>= next).Streams tables := by
  intro map session result after records ok
  obtain ⟨value, middle, ran, rest⟩ := of_exec_bind_ok ok
  obtain ⟨early, noted, leads⟩ := first map session value middle records ran
  obtain ⟨late, more, onward⟩ :=
    second value session middle ran (PlainMap.replay tables map early) middle result after
      leads.records rest
  refine ⟨early ++ late, ?_, leads.append onward⟩
  rw [more, noted, List.append_assoc]

theorem streams_clearLedger : clearLedger.Streams tables :=
  Streams.of_keeps Engine.keeps_clearLedger Engine.notes_clearLedger

theorem streams_consumed (detail : Option CapacityDetail) (table : String) :
    (consumed detail table).Streams tables :=
  Streams.of_keeps (Engine.keeps_consumed _ _) (Engine.notes_consumed _ _)

end Action

namespace Engine

open Action

/-- What hooks noted in the course of a request during the writes that were committed. A request that
fails commits none, and a batch none of those that it hands back. -/
def committed (engine : Engine) (request : Request) (session : Session) : List Change :=
  match engine.handle request session with
  | (.error _, _) => []
  | (.ok response, after) =>
      (after.journal.drop session.journal.length).filter fun change =>
        !change.handedBack engine.tables response.unprocessedWrites

/-- Of a request that hands no writes back, all that is noted is committed. -/
theorem leadsTo_of_streams {engine : Engine} {α : Type} {action : Action α} {wrap : α → Response}
    (unlisted : ∀ value, (wrap value).unprocessedWrites = [])
    (streams : action.Streams engine.tables) {map : PlainMap} {session after : Session}
    {response : Response} (records : Records engine.tables session.store map)
    (ok : (action >>= fun value => pure (wrap value)).exec session = (.ok response, after)) :
    LeadsTo engine.tables map ((after.journal.drop session.journal.length).filter fun change =>
      !change.handedBack engine.tables response.unprocessedWrites) after.store := by
  obtain ⟨value, last, written, ok⟩ := of_exec_bind_ok ok
  cases ok
  obtain ⟨changes, noted, leads⟩ := streams map session value _ records written
  have all : changes.filter (fun change =>
      !change.handedBack engine.tables (wrap value).unprocessedWrites) = changes :=
    List.filter_eq_self.mpr fun change _ => by rw [unlisted]; rfl
  rw [noted, List.drop_left, all]
  exact leads

/-! What a batch hands back. -/

section Batch

variable {engine : Engine}

structure Heard where
  write : PlannedWrite
  back : Bool
  changes : List Change

instance : Std.Symm fun one other : Heard => one.write.plan.Apart other.write.plan :=
  ⟨fun _ _ => WritePlan.Apart.symm⟩

theorem filter_heard {heard : List Heard} {keep : Change → Bool}
    (told : ∀ one ∈ heard, ∀ change ∈ one.changes, keep change = !one.back) :
    (heard.flatMap Heard.changes).filter keep =
      (heard.filter fun one => !one.back).flatMap Heard.changes := by
  induction heard with
  | nil => rfl
  | cons one rest ih =>
      obtain ⟨here, later⟩ := List.forall_mem_cons.mp told
      rw [List.flatMap_cons, List.filter_append, ih later, List.filter_cons]
      cases back : one.back with
      | true =>
          have none : one.changes.filter keep = [] :=
            List.filter_eq_nil_iff.mpr fun change member => by simp [here change member, back]
          rw [none]
          rfl
      | false =>
          have all : one.changes.filter keep = one.changes :=
            List.filter_eq_self.mpr fun change member => by simp [here change member, back]
          rw [all]
          rfl

theorem key?_of_planned {write : PlannedWrite} (planned : engine.Planned write) :
    write.request.key? engine.tables write.table = some write.plan.key ∧
      ∀ change : Change, change.IsOf write.plan →
        change.key? engine.tables = some write.plan.key := by
  obtain ⟨table, found, name, made⟩ := planned
  obtain ⟨target, given, keyed⟩ := planBatchWrite_key made
  have prepared := (engine.planBatchWrite_ok made).1
  obtain rfl := planBatchWrite_table made
  refine ⟨?_, fun change own => ?_⟩
  · rw [BatchWrite.key?, found, Option.bind_some, given, Option.bind_some, keyed]
    rfl
  · rw [Change.key?, own.table, name, found, Option.bind_some, own.keys, prepared.key]
    rfl

theorem handedBack_eq {heard : List Heard} (planned : ∀ one ∈ heard, engine.Planned one.write)
    (apart : heard.Pairwise fun one other => one.write.plan.Apart other.write.plan)
    (own : ∀ one ∈ heard, ∀ change ∈ one.changes, change.IsOf one.write.plan)
    (asked : Dict String (List BatchWrite)) :
    ∀ one ∈ heard, ∀ change ∈ one.changes,
      change.handedBack engine.tables
        (handBack (engine.unknownTables asked) ((heard.filter Heard.back).map Heard.write)) =
          one.back := by
  intro one member change noted
  have about := own one member change noted
  have key := (key?_of_planned (planned one member)).2 change about
  obtain ⟨table, found, name, _⟩ := planned one member
  have here : change.table = one.write.table := about.table.trans name
  have known : engine.tables.contains change.table = true := by
    rw [here, Dict.contains, found]
    rfl
  rw [Change.handedBack, get?_handBack, get?_unknownTables, if_pos known, Option.getD_none,
    List.nil_append, key, Bool.eq_iff_iff, List.any_eq_true]
  constructor
  · rintro ⟨request, listed, same⟩
    obtain ⟨write, inTable, rfl⟩ := List.mem_map.mp listed
    obtain ⟨left, sameTable⟩ := List.mem_filter.mp inTable
    obtain ⟨other, kept, rfl⟩ := List.mem_map.mp left
    obtain ⟨there, back⟩ := List.mem_filter.mp kept
    have sameTable : other.write.table = change.table := eq_of_beq sameTable
    rw [← sameTable, (key?_of_planned (planned other there)).1] at same
    have sameKey : other.write.plan.key = one.write.plan.key := Option.some.inj (eq_of_beq same)
    obtain ⟨_, _, otherName, _⟩ := planned other there
    by_contra notBack
    have different : one ≠ other := by
      rintro rfl
      exact notBack back
    refine apart.forall member there different ?_ sameKey.symm
    rw [name, otherName, sameTable, here]
  · intro back
    have listed : one.write ∈ (heard.filter Heard.back).map Heard.write :=
      List.mem_map_of_mem (List.mem_filter.mpr ⟨member, back⟩)
    refine ⟨one.write.request, List.mem_map_of_mem (List.mem_filter.mpr ⟨listed, ?_⟩), ?_⟩
    · exact beq_iff_eq.mpr here.symm
    · rw [here, (key?_of_planned (planned one member)).1]
      exact beq_self_eq_true _

end Batch

section Requests

variable {engine : Engine} (observed : engine.Observed)

include observed

theorem executeAlone_streams {plan : WritePlan} (sound : plan.Sound engine.tables) :
    (engine.executeAlone plan).Streams engine.tables := by
  intro map session outcome after records ok
  obtain ⟨executed, ran, _, journal, committed⟩ := engine.executeAlone_ok ok
  obtain ⟨stored, noted, leads⟩ := execute_leadsTo observed sound records ran
  refine ⟨changesOf plan stored outcome, journal.trans noted, ?_⟩
  cases outcome with
  | applied old new => exact committed ▸ leads
  | checked => exact committed ▸ leads
  | conditionFailed item => exact ⟨trivial, committed ▸ records⟩

theorem writeAlone_streams {plan : WritePlan} (sound : plan.Sound engine.tables) :
    (engine.writeAlone plan).Streams engine.tables := by
  refine streams_clearLedger.bind fun _ _ _ _ =>
    (executeAlone_streams observed sound).bind fun outcome _ _ _ => ?_
  cases outcome with
  | applied old new => exact (Still.pure _).streams
  | checked => exact (Still.pure _).streams
  | conditionFailed item => exact (Still.throw _).streams

theorem writeSingle_streams {planned : Except Failure WritePlan}
    {attributes : WritePlan → Option Item × Option Item → Action (Option Item)}
    (still : ∀ plan images, (attributes plan images).Still) {capacity : Option CapacityDetail}
    (sound : ∀ plan, planned = .ok plan → plan.Sound engine.tables) :
    (engine.writeSingle planned attributes capacity).Streams engine.tables := by
  refine (Still.ofExcept _ _).streams.bind fun plan _ _ made => ?_
  have here : planned = .ok plan := of_ofExcept_ok ((Still.ofExcept _ _).result_eq made)
  exact (writeAlone_streams observed (sound plan here)).bind fun _ _ _ _ =>
    (still _ _).streams.bind fun _ _ _ _ => (streams_consumed _ _).bind fun _ _ _ _ =>
      (Still.pure _).streams

/-- What hooks note in the course of a batch is what they note of its writes, one after the other.
Without the writes that are handed back it leads to the rows after the batch. -/
theorem writeEach_heard {writes : List PlannedWrite}
    (sound : ∀ write ∈ writes, write.plan.Sound engine.tables) :
    ∀ {map : PlainMap} {session after : Session} {left : List PlannedWrite},
      Records engine.tables session.store map →
      (engine.writeEach writes).exec session = (.ok left, after) →
      ∃ heard : List Heard, heard.map Heard.write = writes ∧
        left = (heard.filter Heard.back).map Heard.write ∧
        (∀ one ∈ heard, ∀ change ∈ one.changes, change.IsOf one.write.plan) ∧
        after.journal = session.journal ++ heard.flatMap Heard.changes ∧
        LeadsTo engine.tables map ((heard.filter fun one => !one.back).flatMap Heard.changes)
          after.store := by
  induction writes with
  | nil =>
      intro map session after left records ok
      cases ok
      exact ⟨[], rfl, rfl, List.forall_mem_nil _, (List.append_nil _).symm, trivial, records⟩
  | cons write rest ih =>
      intro map session after left records ok
      obtain ⟨here, later⟩ := List.forall_mem_cons.mp sound
      obtain ⟨noted, journal, own⟩ := notes_executeAlone observed write.plan session
      rcases writeEach_ok ok with
        ⟨outcome, middle, ran, going⟩ | ⟨failure, middle, others, ran, kept, going, rfl⟩
      · rw [ran] at journal
        obtain ⟨changes, same, leads⟩ :=
          executeAlone_streams observed here map session outcome middle records ran
        obtain rfl : changes = noted := List.append_cancel_left (same.symm.trans journal)
        obtain ⟨heard, rfl, rfl, others, more, onward⟩ := ih later leads.records going
        refine ⟨⟨write, false, changes⟩ :: heard, rfl, rfl,
          List.forall_mem_cons.mpr ⟨own, others⟩, ?_, leads.append onward⟩
        rw [more, journal, List.append_assoc]
        rfl
      · rw [ran] at journal
        obtain ⟨heard, rfl, rfl, others, more, onward⟩ := ih later (kept ▸ records) going
        refine ⟨⟨write, true, noted⟩ :: heard, rfl, rfl,
          List.forall_mem_cons.mpr ⟨own, others⟩, ?_, onward⟩
        rw [more, journal, List.append_assoc]
        rfl

end Requests

theorem execute_of_perform {engine : Engine} {plan : WritePlan} {session after : Session}
    {reason : CancellationReason} (ok : (engine.perform plan).exec session = (.ok reason, after))
    (none : (reason.code == .none) = true) :
    ∃ outcome, (engine.execute plan).exec session = (.ok outcome, after) := by
  cases ran : (engine.execute plan).exec session with
  | mk outcome middle =>
      rw [perform, exec_attempt_bind ran, still_reasonOf] at ok
      obtain ⟨given, rfl⟩ := Prod.mk.inj ok
      cases outcome with
      | ok outcome => exact ⟨outcome, rfl⟩
      | error failure =>
          rw [reasonOf] at given
          split at given
          · cases given
            cases none
          · cases given

section Transactions

variable {engine : Engine} (observed : engine.Observed)

include observed

theorem performs_leadsTo {plans : List WritePlan}
    (sound : ∀ plan ∈ plans, plan.Sound engine.tables) {map : PlainMap}
    {session after : Session} {reasons : List CancellationReason}
    (records : Records engine.tables session.transaction.rows map)
    (ok : (plans.mapM engine.perform).exec session = (.ok reasons, after))
    (none : (reasons.all fun reason => reason.code == .none) = true) :
    ∃ changes, after.journal = session.journal ++ changes ∧
      LeadsTo engine.tables map changes after.transaction.rows := by
  induction plans generalizing map session reasons with
  | nil =>
      cases ok
      exact ⟨[], (List.append_nil _).symm, trivial, records⟩
  | cons plan rest ih =>
      rw [List.mapM_cons] at ok
      obtain ⟨reason, middle, performed, ok⟩ := of_exec_bind_ok ok
      obtain ⟨others, last, later, ok⟩ := of_exec_bind_ok ok
      cases ok
      rw [List.all_cons, Bool.and_eq_true] at none
      obtain ⟨outcome, executed⟩ := execute_of_perform performed none.1
      obtain ⟨stored, noted, leads⟩ :=
        execute_leadsTo observed (sound plan List.mem_cons_self) records executed
      obtain ⟨changes, more, onward⟩ := ih
        (fun other member => sound other (List.mem_cons_of_mem _ member)) leads.records later none.2
      refine ⟨_, ?_, leads.append onward⟩
      rw [more, noted, List.append_assoc]

variable (named : Named engine.tables)

include named

theorem transactWrite_streams {request : TransactWriteRequest}
    (ordered : (Request.transactWrite request).Ordered) :
    (engine.transactWrite request).Streams engine.tables := by
  intro map session response after records ok
  obtain ⟨plans, reasons, performed, planned, performing, none, committed, journal⟩ :=
    transactWrite_ok ok
  have sound := planTransactWrites_sound named ordered planned
  obtain ⟨changes, noted, leads⟩ := performs_leadsTo observed sound records performing none
  refine ⟨changes, journal.trans noted, ?_⟩
  rw [committed]
  exact leads

theorem batchWrite_leadsTo {request : BatchWriteRequest}
    (ordered : (Request.batchWrite request).Ordered) {map : PlainMap} {session after : Session}
    {response : BatchWriteResponse} (records : Records engine.tables session.store map)
    (ok : (engine.batchWrite request).exec session = (.ok response, after)) :
    LeadsTo engine.tables map
      ((after.journal.drop session.journal.length).filter fun change =>
        !change.handedBack engine.tables response.unprocessed) after.store := by
  obtain ⟨writes, left, made, writing, unprocessed, _⟩ := batchWriteIn_ok ok
  have sound := planBatchWrites_sound (ordered_batchedWrites named ordered) made
  obtain ⟨_, rfl, fits, apart, _⟩ := plansWrite_of_ok made
  obtain ⟨heard, rfl, rfl, own, journal, leads⟩ :=
    @writeEach_heard engine observed writes sound map { session with ledger := [] } after left
      records writing
  have journal : after.journal = session.journal ++ heard.flatMap Heard.changes := journal
  have planned : ∀ one ∈ heard, engine.Planned one.write := fun one member =>
    planned_of_plansWrite named (List.Perm.refl _) fits _ (List.mem_map_of_mem member)
  rw [List.map_map] at apart
  have told := handedBack_eq planned (List.pairwise_map.mp apart) own request.tables
  rw [journal, List.drop_left, unprocessed,
    filter_heard fun one member change noted => by rw [told one member change noted]]
  exact leads

/-- What is committed in the course of a request leads from the rows before it to those after it. -/
theorem handle_leadsTo {request : Request} (ordered : request.Ordered) {map : PlainMap}
    {session : Session} (records : Records engine.tables session.store map) :
    LeadsTo engine.tables map (engine.committed request session)
      (engine.handle request session).2.store := by
  cases ran : engine.handle request session with
  | mk outcome after =>
      have answered : (engine.answer request).exec session = (outcome, after) := ran
      rw [committed, ran]
      cases outcome with
      | error failure =>
          have kept := engine.atomic_answer request session failure after ran
          exact ⟨trivial, kept ▸ records⟩
      | ok response =>
          cases request with
          | getItem request =>
              exact leadsTo_of_streams (fun _ => rfl)
                (.of_keeps (engine.keeps_getItem request) (notes_getItem request)) records answered
          | query request =>
              exact leadsTo_of_streams (fun _ => rfl)
                (.of_keeps (engine.keeps_query request) (notes_query request)) records answered
          | scan request =>
              exact leadsTo_of_streams (fun _ => rfl)
                (.of_keeps (engine.keeps_scan request) (notes_scan request)) records answered
          | batchGet request =>
              exact leadsTo_of_streams (fun _ => rfl)
                (.of_keeps (engine.keeps_batchGet request) (notes_batchGet request)) records
                answered
          | transactGet request =>
              exact leadsTo_of_streams (fun _ => rfl)
                (.of_keeps (engine.keeps_transactGet request) (notes_transactGet request)) records
                answered
          | putItem request =>
              refine leadsTo_of_streams (fun _ => rfl) ?_ records answered
              rw [putItem_eq]
              exact writeSingle_streams observed (still_oldIfWanted _) fun plan planned =>
                planOfPut_sound named ordered planned
          | deleteItem request =>
              refine leadsTo_of_streams (fun _ => rfl) ?_ records answered
              rw [deleteItem_eq]
              exact writeSingle_streams observed (still_oldIfWanted _) fun plan planned =>
                planOfDelete_sound named ordered planned
          | updateItem request =>
              refine leadsTo_of_streams (fun _ => rfl) ?_ records answered
              rw [updateItem_eq]
              exact writeSingle_streams observed (still_partsIfWanted _) fun plan planned =>
                planOfUpdate_sound named ordered planned
          | transactWrite request =>
              exact leadsTo_of_streams (fun _ => rfl) (transactWrite_streams observed named ordered)
                records answered
          | batchWrite request =>
              obtain ⟨value, last, written, ok⟩ := of_exec_bind_ok answered
              cases ok
              exact batchWrite_leadsTo observed named ordered records written

end Transactions

end Engine

/-- Runs of requests from an empty store, observed by one hook, with the changes that were noted of
what they committed. Time, settings and what the store refuses may change from request to
request. -/
inductive Streams (tables : Dict String Table) : List Change → Store → Prop
  | empty : Streams tables [] .empty
  | request {engine : Engine} {request : Request} {changes : List Change} {session : Session}
      (before : Streams tables changes session.store) (same : engine.tables = tables)
      (observed : engine.Observed) (ordered : request.Ordered) :
      Streams tables (changes ++ engine.committed request session)
        (engine.handle request session).2.store

theorem Streams.leadsTo {tables : Dict String Table} (named : Named tables)
    {changes : List Change} {store : Store} (streams : Streams tables changes store) :
    LeadsTo tables .empty changes store := by
  induction streams with
  | empty => exact ⟨trivial, fun _ _ _ => rfl, nofun, nofun⟩
  | request before same observed ordered ih =>
      subst same
      exact ih.append (Engine.handle_leadsTo observed named ordered ih.records)

/-- What the changes of a run say about the rows after it. -/
structure TellsAll (tables : Dict String Table) (changes : List Change) (store : Store) : Prop where
  /-- Changes are about one item exactly if their keys agree, numbers by value. -/
  keys : ∀ (table : Table) (a b : Item), table.SamePrimaryKey a b ↔
    ∃ key, table.rowKey a = .ok key ∧ table.rowKey b = .ok key
  coherent : Coherent tables .empty changes
  stored : ∀ table, tables.get? table.name = some table → ∀ key,
    store.item? ⟨table.name, none⟩ key =
      some (PlainMap.empty.replay tables changes table.name key)
  unnoted : ∀ (engine : Engine) (plan : WritePlan) (session after : Session) outcome,
    engine.tables = tables → engine.Observed → plan.Sound tables →
    (engine.execute plan).exec session = (.ok outcome, after) →
    after.journal = session.journal → after.transaction.rows = session.transaction.rows

/-- The changes of a run, replayed on an empty map, tell what its writes found and make what the
tables hold after it. -/
theorem Streams.tellsAll {tables : Dict String Table} (named : Named tables)
    {changes : List Change} {store : Store} (streams : Streams tables changes store)
    (readable : store.Readable) : TellsAll tables changes store := by
  have leads := streams.leadsTo named
  refine ⟨fun _ _ _ => Table.samePrimaryKey_iff, leads.coherent, fun table listed key => ?_, ?_⟩
  · exact leads.records.item?_of_readable readable listed key
  · intro engine plan session after outcome _ observed sound ok unnoted
    exact Engine.rows_of_unnoted observed sound.prepared ok unnoted

/-- The insert of a transaction that is cancelled has been noted and is left out, and so is that of
a batch that is handed back since it could not be committed. The check fails since the item that it
asks for has expired, and its removal is told all the same. -/
theorem tellsAll_after_cancelled :
    let notes : Table := ⟨"notes", "id", none, [], some "ends"⟩
    let engine : Engine := ⟨[("notes", notes)], Config.default, [Hook.record], [], 10⟩
    let put : Request :=
      .putItem ⟨"notes", [("ends", .number "5"), ("id", .string "a")], none, .none, none, none, none⟩
    let inserted : TransactWrite :=
      ⟨none, some ⟨"notes", [("id", .string "b")], none, .none, none⟩, none, none⟩
    let checked : TransactWrite := ⟨some ⟨"notes", [("id", .string "a")], "attribute_exists(id)",
      .none, none⟩, none, none, none⟩
    let cancelled : Request := .transactWrite ⟨[inserted, checked], none⟩
    let removed : BatchWrite := ⟨none, some [("id", .string "a")]⟩
    let added : BatchWrite := ⟨some [("id", .string "c")], none⟩
    let batch : Request := .batchWrite ⟨[("notes", [removed, added])], none⟩
    let failing : Engine := { engine with faults := [⟨.commit, none⟩] }
    let lost : Request :=
      .batchWrite ⟨[("notes", [⟨some [("id", .string "d")], none⟩])], none⟩
    let first := (engine.handle put (Session.ofStore .empty)).2
    let second := (engine.handle cancelled first).2
    let third := (engine.handle batch second).2
    let last := (failing.handle lost third).2
    let changes := [] ++ engine.committed put (Session.ofStore .empty) ++
      engine.committed cancelled first ++ engine.committed batch second ++
      failing.committed lost third
    last.journal.map Change.kind = [.insert, .insert, .remove, .insert, .insert] ∧
      changes.map Change.kind = [.insert, .remove, .insert] ∧
      TellsAll engine.tables changes last.store := by
  intro notes engine put inserted checked cancelled removed added batch failing lost first second
    third last changes
  have observed : engine.Observed := ⟨Hook.record, rfl, fun _ _ _ => rfl⟩
  have alsoObserved : failing.Observed := ⟨Hook.record, rfl, fun _ _ _ => rfl⟩
  have started : Streams engine.tables [] (Session.ofStore .empty).store := .empty
  have streams : Streams engine.tables changes last.store := by
    refine .request (.request (.request (.request started rfl observed ?_) rfl observed ?_) rfl
      observed ?_) rfl alsoObserved ?_
    · exact ⟨by decide, by decide⟩
    · intro write member
      have forms : write = inserted ∨ write = checked := by simpa using member
      rcases forms with rfl | rfl
      · refine ⟨nofun, ?_, nofun, nofun⟩
        rintro _ ⟨⟩
        exact ⟨by decide, by decide⟩
      · refine ⟨?_, nofun, nofun, nofun⟩
        rintro _ ⟨⟩
        exact ⟨by decide, by decide⟩
    · intro entry listed write member item given
      rw [List.mem_singleton.mp listed] at member
      have forms : write = removed ∨ write = added := by simpa using member
      rcases forms with rfl | rfl
      · obtain rfl : item = [("id", .string "a")] := by simpa [removed, eq_comm] using given
        decide
      · obtain rfl : item = [("id", .string "c")] := by simpa [added, eq_comm] using given
        decide
    · intro entry listed write member item given
      rw [List.mem_singleton.mp listed, List.mem_singleton] at member
      rw [member] at given
      obtain rfl : item = [("id", .string "d")] := by simpa [eq_comm] using given
      decide
  refine ⟨by decide +kernel, by decide +kernel, ?_⟩
  exact Streams.tellsAll (named_of_entries (by decide)) streams
    (Store.readable_of_all (by decide +kernel))

end ItemStore
