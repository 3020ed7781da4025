import ItemStore.Proofs.Engine.Completions
import ItemStore.Proofs.Engine.Refusals

/-!
Placeholders that a request uses and does not define: which of them are always refused, and what can
be said of the others.
-/

namespace ItemStore
namespace Engine

open Action

/-! What is looked up in any case. -/

section Certain

variable {engine : Engine} {kind : Failure → Prop} [Failure.Admits kind]

theorem expression_ends {α : Type} (outcome : Except ExpressionError α) :
    (expression outcome).Ends kind fun value => outcome = .ok value := by
  intro session
  cases outcome with
  | ok value => rfl
  | error error => exact Failure.Admits.invalid (by exact rfl)

theorem conditionHolds_ends (plan : WritePlan) (current : Option Item) :
    (conditionHolds plan current).Ends kind fun _ => ∀ condition, plan.condition = some condition →
      plan.bindings.Defines (.surelyOfCondition condition) := by
  rw [conditionHolds]
  cases plan.condition with
  | none => exact .pure fun _ states => by cases states
  | some condition =>
      refine (expression_ends _).mono fun holds ok other same => ?_
      cases same
      exact condition.evaluate_defines ok

theorem updatedItem_ends (plan : WritePlan) (update : Update) (current : Option Item) :
    (updatedItem plan update current).Ends kind fun _ =>
      plan.bindings.Defines (.surelyOfUpdate update) :=
  (expression_ends _).bind fun _ ok => (own_value _).ends.bind fun _ _ =>
    (own_key _).ends.bind fun _ _ => .pure (Update.apply_defines ok)

theorem projected_ends (paths : Option (List Path)) (bindings : Bindings) (item : Item) :
    (projected paths bindings item).Ends kind fun _ => ∀ listed, paths = some listed →
      bindings.Defines (.ofPaths listed) := by
  cases paths with
  | none => exact .pure nofun
  | some paths =>
      refine (expression_ends _).mono fun shown ok other same => ?_
      cases same
      exact Projection.apply_defines ok

variable [Failure.AdmitsStore kind] {plan : WritePlan}

theorem writeAlone_lacksCondition {condition : Condition} (holds : plan.condition = some condition)
    (lacks : ¬plan.bindings.Defines (.surelyOfCondition condition)) :
    (engine.writeAlone plan).Ends kind fun _ => False := by
  have decided : (engine.execute plan).Ends kind fun _ => False :=
    (engine.mayPass_load _ _).ends.bind fun stored _ =>
      (conditionHolds_ends plan _).bind fun _ defined => absurd (defined condition holds) lacks
  have alone : (engine.executeAlone plan).Ends kind fun _ => False :=
    engine.mayPass_begin.ends.bind fun _ _ => decided.stop
  exact (FailsAs.modify _).ends.bind fun _ _ => alone.stop

theorem writeAlone_lacksUpdate {update : Update} (updates : plan.action = .update update)
    (lacks : ¬plan.bindings.Defines (.surelyOfUpdate update))
    (rejected : ∀ item, kind (.conditionFailed item)) :
    (engine.writeAlone plan).Ends kind fun _ => False := by
  have decided : (engine.execute plan).Ends kind fun outcome =>
      ∃ item, outcome = .conditionFailed item := by
    refine (engine.mayPass_load _ _).ends.bind fun stored _ =>
      (conditionHolds_ends plan _).bind fun holds _ => ?_
    split
    · rw [updates]
      exact (updatedItem_ends plan update _).bind fun _ defined => absurd defined lacks
    · exact (FailsAs.modify _).ends.bind fun _ _ => .pure ⟨_, rfl⟩
  have alone : (engine.executeAlone plan).Ends kind fun outcome =>
      ∃ item, outcome = .conditionFailed item := by
    refine engine.mayPass_begin.ends.bind fun _ _ => decided.bind ?_
    rintro _ ⟨item, rfl⟩
    exact engine.mayPass_rollback.ends.bind fun _ _ => .pure ⟨item, rfl⟩
  refine (FailsAs.modify _).ends.bind fun _ _ => alone.bind ?_
  rintro _ ⟨item, rfl⟩
  exact fun _ => rejected item

end Certain

section Plans

variable {engine : Engine}

structure Carries (parts : RequestParts) (plan : WritePlan) : Prop where
  bindings : plan.bindings = parts.bindings
  condition : plan.condition = parts.condition
  update : ∀ update, parts.update = some update → plan.action = .update update ∧
    parts.bindings.Defines (.ofPaths update.targets)

theorem planPut_carries {table : Table} {item : Item} {text : Option String} {bindings : Bindings}
    {returnsOld : Bool} {plan : WritePlan} {name : String}
    (ok : (engine.planPut table item text bindings returnsOld).result = .ok plan) :
    Carries {
      table := name
      bindings := bindings
      condition := RequestParts.readAs Condition.parse text } plan := by
  obtain ⟨_, _, ok⟩ := (Still.value _).of_bind_ok ok
  obtain ⟨_, _, ok⟩ := (Still.key _).of_bind_ok ok
  obtain ⟨_, _, ok⟩ := (Still.require _ _).of_bind_ok ok
  obtain ⟨_, _, ok⟩ := (Still.key _).of_bind_ok ok
  obtain ⟨parsed, parsing, ok⟩ := (still_parseCondition _).of_bind_ok ok
  obtain ⟨_, _, ok⟩ := (engine.still_checkBindings _ _).of_bind_ok ok
  cases ok
  exact ⟨rfl, (parseCondition_reads parsing).symm, nofun⟩

theorem planDelete_carries {table : Table} {key : Item} {text : Option String}
    {bindings : Bindings} {returnsOld : Bool} {plan : WritePlan} {name : String}
    (ok : (engine.planDelete table key text bindings returnsOld).result = .ok plan) :
    Carries {
      table := name
      bindings := bindings
      condition := RequestParts.readAs Condition.parse text } plan := by
  obtain ⟨_, _, ok⟩ := (still_keyOf _ _).of_bind_ok ok
  obtain ⟨parsed, parsing, ok⟩ := (still_parseCondition _).of_bind_ok ok
  obtain ⟨_, _, ok⟩ := (engine.still_checkBindings _ _).of_bind_ok ok
  cases ok
  exact ⟨rfl, (parseCondition_reads parsing).symm, nofun⟩

theorem planUpdate_carries {table : Table} {key : Item} {text other : Option String}
    {bindings : Bindings} {returnsOld : Bool} {plan : WritePlan} {name : String}
    (ok : (engine.planUpdate table key text other bindings returnsOld).result = .ok plan) :
    Carries {
      table := name
      bindings := bindings
      condition := RequestParts.readAs Condition.parse other
      update := RequestParts.readUpdate text } plan := by
  obtain ⟨_, _, ok⟩ := (still_keyOf _ _).of_bind_ok ok
  obtain ⟨update, parsingUpdate, ok⟩ := (still_parseUpdate _).of_bind_ok ok
  obtain ⟨parsed, parsing, ok⟩ := (still_parseCondition _).of_bind_ok ok
  obtain ⟨_, valid, ok⟩ := (Still.expression _).of_bind_ok ok
  obtain ⟨_, _, ok⟩ := (engine.still_checkBindings _ _).of_bind_ok ok
  cases ok
  refine ⟨rfl, (parseCondition_reads parsing).symm, fun other same => ?_⟩
  cases (parseUpdate_reads parsingUpdate).symm.trans same
  exact ⟨rfl, Update.validate_defines (of_ofExcept_ok valid)⟩

structure PageCarries (parts : RequestParts) (plan : PagePlan) : Prop where
  bindings : plan.bindings = parts.bindings
  filter : plan.filter = parts.filter
  paths : plan.paths = parts.projection
  keyCondition : ∀ condition, parts.keyCondition = some condition →
    parts.bindings.Defines (.ofCondition condition)

theorem planQuery_carries {request : QueryRequest} {parts : RequestParts} {plan : PagePlan}
    (holds : (Request.query request).parts = some parts)
    (ok : (engine.planQuery request).result = .ok plan) : PageCarries parts plan := by
  cases holds
  obtain ⟨table, _, ok⟩ := (engine.still_table _).of_bind_ok ok
  obtain ⟨index, _, ok⟩ := (still_pageIndex _ _).of_bind_ok ok
  obtain ⟨_, _, ok⟩ := (still_checkSelect _ _ _).of_bind_ok ok
  obtain ⟨size, _, ok⟩ := (engine.still_pageSize _).of_bind_ok ok
  obtain ⟨condition, parsed, ok⟩ := (still_parseKeyCondition _).of_bind_ok ok
  obtain ⟨filter, filtering, ok⟩ := (still_parseCondition _).of_bind_ok ok
  obtain ⟨paths, projecting, ok⟩ := (still_parseProjection _).of_bind_ok ok
  obtain ⟨_, _, ok⟩ := (engine.still_checkPlaceholders _ _ _).of_bind_ok ok
  obtain ⟨key, compiled, ok⟩ := (Still.expression _).of_bind_ok ok
  obtain ⟨after, _, ok⟩ := (still_startKey _ _).of_bind_ok ok
  obtain ⟨_, _, ok⟩ := (Still.require _ _).of_bind_ok ok
  cases ok
  refine ⟨rfl, (parseCondition_reads filtering).symm,
    (parseProjection_reads projecting).symm, fun other same => ?_⟩
  cases (parseKeyCondition_reads parsed).symm.trans same
  exact KeyCondition.compile_defines (of_ofExcept_ok compiled)

theorem planScan_carries {request : ScanRequest} {parts : RequestParts} {plan : PagePlan}
    (holds : (Request.scan request).parts = some parts)
    (ok : (engine.planScan request).result = .ok plan) : PageCarries parts plan := by
  cases holds
  obtain ⟨table, _, ok⟩ := (engine.still_table _).of_bind_ok ok
  obtain ⟨index, _, ok⟩ := (still_pageIndex _ _).of_bind_ok ok
  obtain ⟨_, _, ok⟩ := (still_checkSelect _ _ _).of_bind_ok ok
  obtain ⟨size, _, ok⟩ := (engine.still_pageSize _).of_bind_ok ok
  obtain ⟨filter, filtering, ok⟩ := (still_parseCondition _).of_bind_ok ok
  obtain ⟨paths, projecting, ok⟩ := (still_parseProjection _).of_bind_ok ok
  obtain ⟨_, _, ok⟩ := (engine.still_checkPlaceholders _ _ _).of_bind_ok ok
  obtain ⟨after, _, ok⟩ := (still_startKey _ _).of_bind_ok ok
  cases ok
  exact ⟨rfl, (parseCondition_reads filtering).symm,
    (parseProjection_reads projecting).symm, nofun⟩

end Plans

theorem table_failsAs {engine : Engine} {kind : Failure → Prop} {name : String} {table : Table}
    (known : engine.tables.get? name = some table) : (engine.table name).FailsAs kind := by
  rw [Engine.table, known]
  exact FailsAs.pure _

section Answers

variable {engine : Engine} {request : Request} {parts : RequestParts}

theorem answer_never {kind : Failure → Prop} [Failure.Admits kind] {table : Table}
    (holds : request.parts = some parts) (known : engine.tables.get? parts.table = some table)
    (writes : parts.condition.isSome ∨ parts.update.isSome)
    (never : ∀ plan, Carries parts plan → (engine.writeAlone plan).Ends kind fun _ => False) :
    (engine.answer request).Ends kind fun _ => False := by
  cases request with
  | getItem | query | scan =>
      cases holds
      simp at writes
  | batchGet | batchWrite | transactGet | transactWrite => cases holds
  | putItem request =>
      cases holds
      refine Ends.stop ((table_failsAs known).ends.bind fun table _ => ?_)
      refine (own_require _ _).ends.bind fun _ _ => ?_
      exact ((engine.still_planPut _ _ _ _ _).ends (engine.own_planPut _ _ _ _ _)).bind
        fun plan planned => (never plan (planPut_carries planned)).stop
  | deleteItem request =>
      cases holds
      refine Ends.stop ((table_failsAs known).ends.bind fun table _ => ?_)
      refine (own_require _ _).ends.bind fun _ _ => ?_
      exact ((engine.still_planDelete _ _ _ _ _).ends (engine.own_planDelete _ _ _ _ _)).bind
        fun plan planned => (never plan (planDelete_carries planned)).stop
  | updateItem request =>
      cases holds
      refine Ends.stop ((table_failsAs known).ends.bind fun table _ => ?_)
      exact ((engine.still_planUpdate _ _ _ _ _ _).ends (engine.own_planUpdate _ _ _ _ _ _)).bind
        fun plan planned => (never plan (planUpdate_carries planned)).stop

theorem query_never {kind : Failure → Prop} [Failure.Admits kind] {request : QueryRequest}
    {table : Table} {condition : Condition}
    (holds : (Request.query request).parts = some parts)
    (known : engine.tables.get? request.table = some table)
    (selects : parts.keyCondition = some condition)
    (lacks : ¬parts.bindings.Defines (.ofCondition condition)) :
    (engine.query request).Ends kind fun _ => False :=
  ((engine.still_planQuery request).ends
    (FailsAs.planQuery engine (table_failsAs known))).bind fun _ planned =>
      absurd ((planQuery_carries holds planned).keyCondition condition selects) lacks

structure Looked (bindings : Bindings) (filter : Option Condition) (paths : Option (List Path))
    (scanned : Int) (items : List Item) : Prop where
  scanned : scanned ≠ 0 → ∀ condition, filter = some condition →
    bindings.Defines (.surelyOfCondition condition)
  returned : items ≠ [] → (∀ condition, filter = some condition →
    bindings.Defines (.surelyOfCondition condition)) ∧
      ∀ listed, paths = some listed → bindings.Defines (.ofPaths listed)

theorem passes_ends {kind : Failure → Prop} [Failure.Admits kind] (filter : Option Condition)
    (bindings : Bindings) (item : Item) :
    (passes filter bindings item).Ends kind fun _ => ∀ condition, filter = some condition →
      bindings.Defines (.surelyOfCondition condition) := by
  cases filter with
  | none => exact .pure nofun
  | some condition =>
      refine (expression_ends _).mono fun passed ok other same => ?_
      cases same
      exact condition.evaluate_defines ok

instance : Failure.Admits fun _ => True := ⟨fun _ => trivial⟩

theorem addRow_looked {plan : PagePlan} {page : Page} (row : Row)
    (looked : Looked plan.bindings plan.filter plan.paths page.scanned page.items) :
    (engine.addRow plan page row).Ends (fun _ => True) fun page =>
      Looked plan.bindings plan.filter plan.paths page.scanned page.items := by
  refine (Ends.any _).bind fun item _ => ?_
  split
  · exact .pure looked
  · refine (passes_ends plan.filter plan.bindings item).bind fun passed filtered => ?_
    split
    · split
      · exact .pure ⟨fun _ => filtered, looked.returned⟩
      · exact (projected_ends plan.paths plan.bindings item).bind fun shown listed =>
          .pure ⟨fun _ => filtered, fun _ => ⟨filtered, listed⟩⟩
    · exact .pure ⟨fun _ => filtered, looked.returned⟩

theorem readPage_looked (plan : PagePlan) (detail : Option CapacityDetail) :
    (engine.readPage plan detail).Ends (fun _ => True) fun page =>
      Looked plan.bindings plan.filter plan.paths page.scannedCount page.items := by
  have empty : Looked plan.bindings plan.filter plan.paths Page.empty.scanned Page.empty.items :=
    ⟨nofun, nofun⟩
  refine (Ends.any clearLedger).bind fun _ _ => (Ends.any _).bind fun _ _ =>
    (Ends.any _).bind fun found _ => (Ends.any _).bind fun _ _ => ?_
  refine (Ends.foldlM (fun row _ page looked => addRow_looked row looked) empty).bind
    fun page looked => ?_
  exact (Ends.any _).bind fun _ _ => (Ends.any _).bind fun consumed _ => .pure looked

theorem getItem_looked {request : GetItemRequest}
    (holds : (Request.getItem request).parts = some parts) :
    (engine.getItem request).Ends (fun _ => True) fun response => response.item ≠ none →
      ∀ paths, parts.projection = some paths → parts.bindings.Defines (.ofPaths paths) := by
  cases holds
  have plans : (engine.planGet request.table request.key request.projection request.names).Ends
      (fun _ => True) fun plan =>
        plan.paths = RequestParts.readAs Projection.parse request.projection ∧
          plan.names = request.names := by
    refine (Ends.any (engine.table _)).bind fun table _ =>
      (Ends.any (keyOf _ _)).bind fun key _ => ?_
    have reads : (engine.parsePaths request.projection request.names).Ends (fun _ => True)
        fun paths => paths = RequestParts.readAs Projection.parse request.projection :=
      ((still_parseProjection _).ends fun _ _ _ _ => trivial).bind fun paths parsed =>
        (Ends.any _).bind fun _ _ => .pure (parseProjection_reads parsed).symm
    exact reads.bind fun paths read => .pure ⟨read, rfl⟩
  refine plans.bind fun plan ⟨read, named⟩ => (Ends.any clearLedger).bind fun _ _ =>
    (Ends.any _).bind fun _ _ => (Ends.any _).bind fun found _ => (Ends.any _).bind fun _ _ => ?_
  have shows : (projectFound plan found).Ends (fun _ => True) fun item => item ≠ none →
      ∀ paths, plan.paths = some paths → Bindings.Defines ⟨plan.names, []⟩ (.ofPaths paths) := by
    cases found with
    | none => exact .pure fun shown => absurd rfl shown
    | some item => exact (projected_ends _ _ _).bind fun _ listed => .pure fun _ => listed
  refine shows.bind fun item listed => (Ends.any _).bind fun consumed _ => .pure ?_
  rw [read, named] at listed
  exact listed

def Explained (parts : RequestParts) : Response → Prop
  | .item response => response.item ≠ none → ∀ paths, parts.projection = some paths →
      parts.bindings.Defines (.ofPaths paths)
  | .page response => Looked parts.bindings parts.filter parts.projection response.scannedCount
      response.items
  | _ => True

theorem answer_explained (holds : request.parts = some parts) :
    (engine.answer request).Ends (fun _ => True) (Explained parts) := by
  cases request with
  | batchGet | batchWrite | transactGet | transactWrite => cases holds
  | putItem | updateItem | deleteItem => exact (Ends.any _).bind fun _ _ => .pure trivial
  | getItem request => exact (getItem_looked holds).bind fun _ shown => .pure shown
  | query request =>
      refine Ends.bind (((engine.still_planQuery request).ends fun _ _ _ _ => trivial).bind
        fun plan planned => ?_) fun _ shown => .pure shown
      have carries := planQuery_carries holds planned
      simp only [Explained, ← carries.bindings, ← carries.filter, ← carries.paths]
      exact readPage_looked plan _
  | scan request =>
      refine Ends.bind (((engine.still_planScan request).ends fun _ _ _ _ => trivial).bind
        fun plan planned => ?_) fun _ shown => .pure shown
      have carries := planScan_carries holds planned
      simp only [Explained, ← carries.bindings, ← carries.filter, ← carries.paths]
      exact readPage_looked plan _

end Answers

/-! Requests as they are answered. -/

def Refuses (engine : Engine) (kind : Failure → Prop) (request : Request) (session : Session) :
    Prop :=
  ∃ failure, (engine.handle request session).1 = .error failure ∧ kind failure ∧
    (engine.handle request session).2.store = session.store

theorem Refuses.of_ends {engine : Engine} {kind : Failure → Prop} {request : Request}
    (never : (engine.answer request).Ends kind fun _ => False) (session : Session) :
    engine.Refuses kind request session := by
  have ended := never session
  split at ended
  · exact ended.elim
  · rename_i failure failed
    exact ⟨failure, failed, ended, engine.failed_request_keeps_store request session failure failed⟩

end Engine

namespace Failure

def InvalidOrStore (failure : Failure) : Prop :=
  failure.Invalid ∨ failure = .store

def Undecided (failure : Failure) : Prop :=
  failure.InvalidOrStore ∨ ∃ item, failure = .conditionFailed item

instance : Admits InvalidOrStore := ⟨Or.inl⟩

instance : AdmitsStore InvalidOrStore := ⟨Or.inr rfl⟩

instance : Admits Undecided := ⟨fun invalid => Or.inl (Or.inl invalid)⟩

instance : AdmitsStore Undecided := ⟨Or.inl (Or.inr rfl)⟩

end Failure

namespace Engine

/-- What becomes of a request whose expressions use placeholders that it does not define. -/
structure MindsPlaceholders (engine : Engine) (session : Session) (request : Request)
    (parts : RequestParts) : Prop where
  reported : ∀ full : Bindings, full.Completes parts.placeholders parts.bindings →
    engine.Refuses parts.bindings.Misses request session ∨
      engine.handle request session = engine.handle (request.withBindings full) session
  keyCondition : ∀ condition, parts.keyCondition = some condition →
    ¬parts.bindings.Defines (.ofCondition condition) →
      engine.Refuses Failure.Invalid request session
  targets : ∀ update, parts.update = some update →
    ¬parts.bindings.Defines (.ofPaths update.targets) →
      engine.Refuses Failure.Invalid request session
  condition : ∀ condition, parts.condition = some condition →
    ¬parts.bindings.Defines (.surelyOfCondition condition) →
      engine.Refuses Failure.InvalidOrStore request session
  update : ∀ update, parts.update = some update →
    ¬parts.bindings.Defines (.surelyOfUpdate update) →
      engine.Refuses Failure.Undecided request session
  answered : ∀ response, (engine.handle request session).1 = .ok response →
    Explained parts response

variable {engine : Engine} {session : Session} {request : Request} {parts : RequestParts}

theorem refuses_or_same (holds : request.parts = some parts) {full : Bindings}
    (completes : full.Completes parts.placeholders parts.bindings) :
    engine.Refuses parts.bindings.Misses request session ∨
      engine.handle request session = engine.handle (request.withBindings full) session := by
  have met := engine.answer_follows holds completes session
  cases ran : (engine.answer request).exec session with
  | mk outcome after =>
      rw [ran] at met
      cases other : (engine.answer (request.withBindings full)).exec session with
      | mk answered last =>
          rw [other] at met
          have here : engine.handle request session = (outcome, after) := ran
          have there : engine.handle (request.withBindings full) session = (answered, last) := other
          rw [Refuses, here, there]
          cases met with
          | stops misses =>
              have kept := engine.failed_request_keeps_store request session _ (by rw [here])
              rw [here] at kept
              exact Or.inl ⟨_, rfl, misses, kept⟩
          | fails failure => exact Or.inr rfl
          | returns _ same => exact Or.inr (by rw [same])

theorem minds_placeholders {table : Table} (holds : request.parts = some parts)
    (known : engine.tables.get? parts.table = some table) :
    engine.MindsPlaceholders session request parts where
  reported _ completes := refuses_or_same holds completes
  keyCondition condition selects lacks := by
    cases request with
    | query request =>
        have named : engine.tables.get? request.table = some table := by
          cases holds
          exact known
        exact .of_ends (query_never holds named selects lacks).stop session
    | getItem | putItem | updateItem | deleteItem | scan =>
        cases holds
        cases selects
    | batchGet | batchWrite | transactGet | transactWrite => cases holds
  targets update updates lacks := by
    refine .of_ends (answer_never holds known (Or.inr (by rw [updates]; rfl)) ?_) session
    exact fun plan carries => absurd (carries.update update updates).2 lacks
  condition condition states lacks := by
    refine .of_ends (answer_never holds known (Or.inl (by rw [states]; rfl)) ?_) session
    intro plan carries
    refine writeAlone_lacksCondition (carries.condition.trans states) ?_
    rwa [carries.bindings]
  update update updates lacks := by
    refine .of_ends (answer_never holds known (Or.inr (by rw [updates]; rfl)) ?_) session
    intro plan carries
    refine writeAlone_lacksUpdate (carries.update update updates).1 ?_
      fun item => Or.inr ⟨item, rfl⟩
    rwa [carries.bindings]
  answered response ok := by
    have ends : (engine.answer request).Ends (fun _ => True) (Explained parts) :=
      answer_explained holds
    have explained := ends session
    rw [show ((engine.answer request).exec session).1 = .ok response from ok] at explained
    exact explained

end Engine

deriving instance DecidableEq for Condition

namespace UndefinedOwner

/-! A put whose condition names, behind `OR`, a value that it does not define. -/

def notes : Table := ⟨"notes", "id", none, [], none⟩

def engine : Engine := ⟨[("notes", notes)], Config.default, [], [], 0⟩

def put : PutItemRequest :=
  ⟨"notes", [("id", .string "a")], some "attribute_not_exists(id) OR owner = :owner", .none, none,
    none, none⟩

def condition : Condition :=
  .logical .or (.attributeNotExists ⟨.literal "id", []⟩)
    (.compare (.path ⟨.literal "owner", []⟩) .equal (.value ":owner"))

theorem parts_put : (Request.putItem put).parts =
    some { table := "notes", bindings := .none, condition := some condition } := by
  have parsed : Condition.parse "attribute_not_exists(id) OR owner = :owner" = .ok condition :=
    ok_of_toOption (by decide +kernel)
  simp only [Request.parts, put, RequestParts.readAs, Option.bind_some, parsed]
  rfl

theorem minds_put : (Request.putItem put).parts =
      some { table := "notes", bindings := .none, condition := some condition } ∧
    engine.tables.get? "notes" = some notes ∧
    engine.MindsPlaceholders (Session.ofStore .empty) (.putItem put)
      { table := "notes", bindings := .none, condition := some condition } :=
  have known : engine.tables.get? "notes" = some notes := rfl
  ⟨parts_put, known, Engine.minds_placeholders parts_put known⟩

/-- Nothing is stored under the key yet, so that the other side of `OR` is not looked at: the item
is put. -/
theorem put_accepted : (Request.putItem put).parts =
      some { table := "notes", bindings := .none, condition := some condition } ∧
    ¬Bindings.Defines .none (.ofCondition condition) ∧
    (∃ response, (engine.handle (.putItem put) (Session.ofStore .empty)).1 = .ok response) ∧
    (engine.handle (.putItem put) (Session.ofStore .empty)).2.store ≠ .empty := by
  refine ⟨parts_put, fun defines => ?_, ?_, ?_⟩
  · have defined := defines.values ":owner" (by decide +kernel)
    cases defined
  · have accepted : (engine.handle (.putItem put) (Session.ofStore .empty)).1.toOption.isSome =
        true := by decide +kernel
    obtain ⟨response, answered⟩ := Option.isSome_iff_exists.mp accepted
    exact ⟨response, ok_of_toOption answered⟩
  · have stored : (engine.handle (.putItem put) (Session.ofStore .empty)).2.store.rows.length = 1 :=
      by decide +kernel
    intro empty
    rw [empty] at stored
    cases stored

end UndefinedOwner
end ItemStore
