import ItemStore.Proofs.Cursor
import ItemStore.Proofs.Engine.Pages
import ItemStore.Proofs.Engine.Plans
import Mathlib.Data.List.Nodup

/-!
Reading page after page. Each page goes on where the one before it says, whatever happens to the
store between them. No row is returned twice, and none is missed that was there all the time.
-/

namespace ItemStore

inductive PageRequest where
  | query (request : QueryRequest)
  | scan (request : ScanRequest)

namespace PageRequest

def again (request : PageRequest) (limit : Option Int) (start : Option String) : PageRequest :=
  match request with
  | .query request => .query { request with limit := limit, startKey := start }
  | .scan request => .scan { request with limit := limit, startKey := start }

def forward : PageRequest → Bool
  | .query request => request.forward.getD true
  | .scan _ => true

def table : PageRequest → String
  | .query request => request.table
  | .scan request => request.table

def index : PageRequest → Option String
  | .query request => request.index
  | .scan request => request.index

def filter : PageRequest → Option String
  | .query request => request.filter
  | .scan request => request.filter

def projection : PageRequest → Option String
  | .query request => request.projection
  | .scan request => request.projection

def bindings : PageRequest → Bindings
  | .query request => request.bindings
  | .scan request => request.bindings

def select : PageRequest → Option Select
  | .query request => request.select
  | .scan request => request.select

def keys (request : PageRequest) (table : Table) (index : Option Index) :
    Except Failure (Option KeyValue × Option SortCondition) :=
  match request with
  | .query request => do
      let condition ← (Engine.parseKeyCondition request.keyCondition).result
      let (hashKey, sortKey) := Engine.keySchema table index
      let key ← (Action.expression
        (KeyCondition.compile condition request.bindings hashKey sortKey)).result
      return (some key.hash, key.sort)
  | .scan _ => .ok (none, none)

def plan (engine : Engine) : PageRequest → Action PagePlan
  | .query request => engine.planQuery request
  | .scan request => engine.planScan request

def answer (engine : Engine) : PageRequest → Action PageResponse
  | .query request => engine.query request
  | .scan request => engine.scan request

end PageRequest

namespace PagePlan

def moved (plan : PagePlan) (pageSize : Nat) (after : Option RowKey) : PagePlan :=
  { plan with pageSize := pageSize, range := { plan.range with after := after } }

structure Fits (plan : PagePlan) (tables : Dict String Table) (request : PageRequest) : Prop where
  table : tables.get? request.table = some plan.table
  index : (Engine.pageIndex plan.table request.index).result = .ok plan.index
  keys : request.keys plan.table plan.index = .ok (plan.range.hash, plan.range.condition)
  forward : plan.range.forward = request.forward
  limit : plan.range.limit = none
  filter : (Engine.parseCondition request.filter).result = .ok plan.filter
  paths : (Engine.parseProjection request.projection).result = .ok plan.paths
  countOnly : plan.countOnly = (request.select == some .count)
  bindings : plan.bindings = request.bindings

structure Starts (plan : PagePlan) (engine : Engine) (start : Option String) : Prop where
  sized : 0 < engine.config.defaultPageSize → 0 < engine.config.maxPageSize → 0 < plan.pageSize
  first : start = none → plan.range.after = none
  later : ∀ token, start = some token →
    ∃ key, Cursor.decode plan.space token = .ok key ∧ plan.range.after = some key
  inPartition : ∀ hash key, plan.range.hash = some hash → plan.range.after = some key →
    key.hash = hash

theorem Fits.agree {plan other : PagePlan} {tables : Dict String Table} {request : PageRequest}
    (fits : plan.Fits tables request) (otherFits : other.Fits tables request) :
    other = plan.moved other.pageSize other.range.after := by
  obtain ⟨table, index, ⟨hash, condition, forward, after, limit⟩, size, filter, paths, countOnly,
    bindings⟩ := plan
  obtain ⟨otherTable, otherIndex, ⟨_, _, _, otherAfter, _⟩, otherSize, _, _, _, _⟩ := other
  cases Option.some.inj (otherFits.table.symm.trans fits.table)
  cases Except.ok.inj (otherFits.index.symm.trans fits.index)
  cases Except.ok.inj (otherFits.keys.symm.trans fits.keys)
  cases otherFits.forward.trans fits.forward.symm
  cases otherFits.limit.trans fits.limit.symm
  cases Except.ok.inj (otherFits.filter.symm.trans fits.filter)
  cases Except.ok.inj (otherFits.paths.symm.trans fits.paths)
  cases otherFits.countOnly.trans fits.countOnly.symm
  cases otherFits.bindings.trans fits.bindings.symm
  rfl

end PagePlan

namespace Engine

open Action

variable {engine other : Engine} {plan otherPlan : PagePlan}

theorem pageSize_pos {limit : Option Int} {size : Nat}
    (ok : (engine.pageSize limit).result = .ok size) (default : 0 < engine.config.defaultPageSize)
    (max : 0 < engine.config.maxPageSize) : 0 < size := by
  cases limit with
  | none =>
      cases ok
      omega
  | some limit =>
      rw [Engine.pageSize] at ok
      split at ok
      · cases ok
      · cases ok
        omega

theorem startKey_ok {space : Space} {start : Option String} {after : Option RowKey}
    (ok : (startKey space start).result = .ok after) :
    (start = none → after = none) ∧
      ∀ token, start = some token →
        ∃ key, Cursor.decode space token = .ok key ∧ after = some key := by
  cases start with
  | none =>
      cases ok
      exact ⟨fun _ => rfl, nofun⟩
  | some token =>
      obtain ⟨key, decoded, ok⟩ := (Still.ofExcept _ _).of_bind_ok ok
      cases ok
      refine ⟨nofun, ?_⟩
      rintro _ ⟨⟩
      exact ⟨key, of_ofExcept_ok decoded, rfl⟩

theorem planQuery_ok {request : QueryRequest}
    (ok : (engine.planQuery request).result = .ok plan) :
    plan.Fits engine.tables (.query request) ∧ plan.Starts engine request.startKey := by
  obtain ⟨table, found, ok⟩ := (engine.still_table _).of_bind_ok ok
  obtain ⟨index, named, ok⟩ := (still_pageIndex _ _).of_bind_ok ok
  obtain ⟨_, _, ok⟩ := (still_checkSelect _ _ _).of_bind_ok ok
  obtain ⟨size, sizing, ok⟩ := (engine.still_pageSize _).of_bind_ok ok
  obtain ⟨condition, parsed, ok⟩ := (still_parseKeyCondition _).of_bind_ok ok
  obtain ⟨filter, filtering, ok⟩ := (still_parseCondition _).of_bind_ok ok
  obtain ⟨paths, projecting, ok⟩ := (still_parseProjection _).of_bind_ok ok
  obtain ⟨_, _, ok⟩ := (engine.still_checkPlaceholders _ _ _).of_bind_ok ok
  obtain ⟨key, compiled, ok⟩ := (Still.expression _).of_bind_ok ok
  obtain ⟨after, starting, ok⟩ := (still_startKey _ _).of_bind_ok ok
  obtain ⟨_, inPartition, ok⟩ := (Still.require _ _).of_bind_ok ok
  cases ok
  obtain ⟨first, later⟩ := startKey_ok starting
  refine ⟨⟨table_ok found, named, ?_, rfl, rfl, filtering, projecting, rfl, rfl⟩,
    pageSize_pos sizing, first, later, ?_⟩
  · rw [PageRequest.keys, parsed]
    exact congrArg (· >>= fun key => .ok (some key.hash, key.sort)) compiled
  · rintro _ start ⟨⟩ rfl
    exact beq_iff_eq.mp (of_require_ok inPartition)

theorem planScan_ok {request : ScanRequest} (ok : (engine.planScan request).result = .ok plan) :
    plan.Fits engine.tables (.scan request) ∧ plan.Starts engine request.startKey := by
  obtain ⟨table, found, ok⟩ := (engine.still_table _).of_bind_ok ok
  obtain ⟨index, named, ok⟩ := (still_pageIndex _ _).of_bind_ok ok
  obtain ⟨_, _, ok⟩ := (still_checkSelect _ _ _).of_bind_ok ok
  obtain ⟨size, sizing, ok⟩ := (engine.still_pageSize _).of_bind_ok ok
  obtain ⟨filter, filtering, ok⟩ := (still_parseCondition _).of_bind_ok ok
  obtain ⟨paths, projecting, ok⟩ := (still_parseProjection _).of_bind_ok ok
  obtain ⟨_, _, ok⟩ := (engine.still_checkPlaceholders _ _ _).of_bind_ok ok
  obtain ⟨after, starting, ok⟩ := (still_startKey _ _).of_bind_ok ok
  cases ok
  obtain ⟨first, later⟩ := startKey_ok starting
  exact ⟨⟨table_ok found, named, rfl, rfl, rfl, filtering, projecting, rfl, rfl⟩,
    pageSize_pos sizing, first, later, nofun⟩

end Engine

namespace PageRequest

open Action

variable {engine : Engine} {request : PageRequest} {plan : PagePlan}

theorem plan_ok {limit : Option Int} {start : Option String}
    (ok : ((request.again limit start).plan engine).result = .ok plan) :
    plan.Fits engine.tables request ∧ plan.Starts engine start := by
  cases request with
  | query request =>
      obtain ⟨fits, starts⟩ := Engine.planQuery_ok ok
      exact ⟨⟨fits.table, fits.index, fits.keys, fits.forward, fits.limit, fits.filter, fits.paths,
        fits.countOnly, fits.bindings⟩, starts⟩
  | scan request =>
      obtain ⟨fits, starts⟩ := Engine.planScan_ok ok
      exact ⟨⟨fits.table, fits.index, fits.keys, fits.forward, fits.limit, fits.filter, fits.paths,
        fits.countOnly, fits.bindings⟩, starts⟩

theorem answer_ok {limit : Option Int} {start : Option String} {session after : Session}
    {response : PageResponse}
    (ok : ((request.again limit start).answer engine).exec session = (.ok response, after)) :
    ∃ plan, ((request.again limit start).plan engine).result = .ok plan ∧
      engine.Answers plan session.store response := by
  cases request with
  | query request =>
      obtain ⟨plan, planned, ok⟩ := (engine.still_planQuery _).of_exec_bind_ok ok
      exact ⟨plan, planned, Engine.readPage_ok (Engine.planQuery_ok planned).2.inPartition ok⟩
  | scan request =>
      obtain ⟨plan, planned, ok⟩ := (engine.still_planScan _).of_exec_bind_ok ok
      exact ⟨plan, planned, Engine.readPage_ok (Engine.planScan_ok planned).2.inPartition ok⟩

end PageRequest

structure PageRead where
  engine : Engine
  session : Session
  request : PageRequest
  response : PageResponse

namespace PageRead

def Succeeds (read : PageRead) : Prop :=
  ∃ after, (read.request.answer read.engine).exec read.session = (.ok read.response, after)

def Planned (read : PageRead) (plan : PagePlan) : Prop :=
  (read.request.plan read.engine).result = .ok plan

def returned (read : PageRead) : List Row :=
  match (read.request.plan read.engine).result with
  | .ok plan => read.engine.returned plan read.session.store
  | .error _ => []

def Offers (read : PageRead) (row : Row) : Prop :=
  ∃ plan, read.Planned plan ∧ row ∈ read.session.store.rowsOf plan.space ∧
    plan.range.admits row = true ∧ read.engine.accepts plan row = true

def Lists (read : PageRead) : Prop :=
  ∃ plan, read.Planned plan ∧ read.response.count = read.returned.length ∧
    plan.shownAll read.returned = .ok read.response.items

def Advances (read : PageRead) : Prop :=
  ∀ token, read.response.lastKey = some token → ∃ plan key, read.Planned plan ∧
    Cursor.decode plan.space token = .ok key ∧
    plan.range.after.all (RangeQuery.precedes plan.range.forward · key) = true

end PageRead

/-- Reads of a request page after page, each from where the one before it ended. -/
def PageRequest.Follow (request : PageRequest) : Option String → List PageRead → Prop
  | _, [] => True
  | start, read :: rest =>
      (∃ limit, read.request = request.again limit start) ∧ read.Succeeds ∧
        match read.response.lastKey with
        | some token => request.Follow (some token) rest
        | none => rest = []

def PageRead.Fit (tables : Dict String Table) (read : PageRead) : Prop :=
  read.engine.tables = tables ∧ 0 < read.engine.config.defaultPageSize ∧
    0 < read.engine.config.maxPageSize

section Read

variable {request : PageRequest} {tables : Dict String Table} {read : PageRead}
  {limit : Option Int} {start : Option String}

theorem PageRead.plan_of_succeeds (fit : read.Fit tables)
    (same : read.request = request.again limit start) (succeeds : read.Succeeds) :
    ∃ plan, read.Planned plan ∧ plan.Fits tables request ∧ plan.Starts read.engine start ∧
      read.engine.Answers plan read.session.store read.response ∧
      read.returned = read.engine.returned plan read.session.store := by
  obtain ⟨after, ok⟩ := succeeds
  rw [same] at ok
  obtain ⟨plan, planned, answers⟩ := PageRequest.answer_ok ok
  obtain ⟨fits, starts⟩ := PageRequest.plan_ok planned
  rw [← same] at planned
  rw [fit.1] at fits
  refine ⟨plan, planned, fits, starts, answers, ?_⟩
  rw [PageRead.returned, planned]

theorem PageRead.Planned.unique {plan other : PagePlan} (planned : read.Planned plan)
    (otherPlanned : read.Planned other) : other = plan :=
  Except.ok.inj (otherPlanned.symm.trans planned)

theorem PageRead.of_mem_returned (fit : read.Fit tables)
    (same : read.request = request.again limit start) (succeeds : read.Succeeds) {row : Row}
    (member : row ∈ read.returned) :
    read.Offers row ∧ ∀ plan, read.Planned plan →
      plan.range.after.all (RangeQuery.precedes plan.range.forward · row.key) = true := by
  obtain ⟨plan, planned, _, _, _, rows⟩ := plan_of_succeeds fit same succeeds
  rw [rows] at member
  obtain ⟨selected, accepted⟩ := Engine.of_mem_returned member
  obtain ⟨listed, selects⟩ := RangeQuery.mem_selected.mp selected
  obtain ⟨admitted, later⟩ := Bool.and_eq_true_iff.mp selects
  refine ⟨⟨plan, planned, listed, admitted, accepted⟩, fun other otherPlanned => ?_⟩
  rw [planned.unique otherPlanned]
  exact later

theorem PageRead.offers_iff (fit : read.Fit tables)
    (same : read.request = request.again limit start) (succeeds : read.Succeeds)
    {plan : PagePlan} (fits : plan.Fits tables request) (row : Row) :
    read.Offers row ↔ row ∈ read.session.store.rowsOf plan.space ∧
      plan.range.admits row = true ∧ read.engine.accepts plan row = true := by
  obtain ⟨own, planned, ownFits, _⟩ := plan_of_succeeds fit same succeeds
  have agreed := fits.agree ownFits
  have parts : own.space = plan.space ∧ own.range.admits row = plan.range.admits row ∧
      read.engine.accepts own row = read.engine.accepts plan row := by
    rw [agreed]
    exact ⟨rfl, rfl, rfl⟩
  obtain ⟨space, admits, accepts⟩ := parts
  constructor
  · rintro ⟨other, otherPlanned, listed, admitted, accepted⟩
    rw [planned.unique otherPlanned, space] at listed
    rw [planned.unique otherPlanned, admits] at admitted
    rw [planned.unique otherPlanned, accepts] at accepted
    exact ⟨listed, admitted, accepted⟩
  · rintro ⟨listed, admitted, accepted⟩
    refine ⟨own, planned, ?_, ?_, ?_⟩
    · rw [space]
      exact listed
    · rw [admits]
      exact admitted
    · rw [accepts]
      exact accepted

theorem PageRead.lists (fit : read.Fit tables) (same : read.request = request.again limit start)
    (succeeds : read.Succeeds) : read.Lists := by
  obtain ⟨plan, planned, _, _, answers, rows⟩ := plan_of_succeeds fit same succeeds
  refine ⟨plan, planned, ?_, ?_⟩
  · rw [rows]
    exact answers.count
  · rw [rows]
    exact answers.items

theorem PageRead.advances (fit : read.Fit tables)
    (same : read.request = request.again limit start) (succeeds : read.Succeeds) :
    read.Advances := by
  intro token cursor
  obtain ⟨plan, planned, _, _, answers, _⟩ := plan_of_succeeds fit same succeeds
  rw [answers.lastKey] at cursor
  obtain ⟨key, next, rfl⟩ := Option.map_eq_some_iff.mp cursor
  refine ⟨plan, key, planned, Cursor.decode_encode plan.space key, ?_⟩
  obtain ⟨last, read, rfl, _⟩ := Engine.nextStart_some next
  obtain ⟨_, selects⟩ := RangeQuery.mem_selected.mp (List.mem_of_mem_take read)
  exact (Bool.and_eq_true_iff.mp selects).2

end Read

namespace PageRequest

variable {request : PageRequest} {tables : Dict String Table} {reads : List PageRead}
  {start : Option String} {after : Option RowKey}

def Begins (request : PageRequest) (tables : Dict String Table) (start : Option String)
    (after : Option RowKey) : Prop :=
  ∀ (plan : PagePlan) engine, plan.Fits tables request → plan.Starts engine start →
    plan.range.after = after

theorem begins_none : request.Begins tables none none :=
  fun _ _ _ starts => starts.first rfl

theorem begins_encode {plan : PagePlan} (fits : plan.Fits tables request) (key : RowKey) :
    request.Begins tables (some (Cursor.encode plan.space key)) (some key) := by
  intro other engine otherFits starts
  obtain ⟨found, decoded, begins⟩ := starts.later _ rfl
  have space : other.space = plan.space := by
    rw [fits.agree otherFits]
    rfl
  rw [space, Cursor.decode_encode] at decoded
  rw [begins, Except.ok.inj decoded]

theorem Follow.each (follow : request.Follow start reads) :
    ∀ read ∈ reads, (∃ limit start, read.request = request.again limit start) ∧
      read.Succeeds := by
  induction reads generalizing start with
  | nil =>
      intro read member
      exact absurd member List.not_mem_nil
  | cons first rest ih =>
      obtain ⟨⟨limit, same⟩, succeeds, onward⟩ := follow
      intro read member
      rcases List.mem_cons.mp member with rfl | later
      · exact ⟨⟨limit, start, same⟩, succeeds⟩
      · split at onward
        · exact ih onward read later
        · rw [onward] at later
          exact absurd later List.not_mem_nil

end PageRequest

structure PageRead.Steps (read : PageRead) (forward : Bool) (after next : Option RowKey) :
    Prop where
  ordered : read.returned.Pairwise fun a b => RangeQuery.precedes forward a.key b.key = true
  later : ∀ row ∈ read.returned, after.all (RangeQuery.precedes forward · row.key) = true
  last : next = none → ∀ row, read.Offers row →
    after.all (RangeQuery.precedes forward · row.key) = true → row ∈ read.returned
  onward : ∀ key, next = some key → after.all (RangeQuery.precedes forward · key) = true
  within : ∀ key, next = some key → ∀ row ∈ read.returned,
    row.key = key ∨ RangeQuery.precedes forward row.key key = true
  beyond : ∀ key, next = some key → ∀ row, read.Offers row →
    after.all (RangeQuery.precedes forward · row.key) = true →
    row ∈ read.returned ∨ RangeQuery.precedes forward key row.key = true

theorem PageRead.steps {request : PageRequest} {tables : Dict String Table} {read : PageRead}
    {limit : Option Int} {start : Option String} {after : Option RowKey} (fit : read.Fit tables)
    (begins : request.Begins tables start after) (same : read.request = request.again limit start)
    (succeeds : read.Succeeds) : ∃ (plan : PagePlan) (next : Option RowKey),
      plan.Fits tables request ∧
      read.response.lastKey = next.map (Cursor.encode plan.space) ∧
      read.Steps request.forward after next := by
  obtain ⟨plan, planned, fits, starts, answers, rows⟩ := plan_of_succeeds fit same succeeds
  obtain rfl := begins plan _ fits starts
  have selected : ∀ row, read.Offers row →
      plan.range.after.all (RangeQuery.precedes plan.range.forward · row.key) = true →
      row ∈ plan.range.selected (read.session.store.rowsOf plan.space) ∧
        read.engine.accepts plan row = true := by
    rintro row ⟨other, otherPlanned, listed, admitted, accepted⟩ passed
    rw [planned.unique otherPlanned] at listed admitted accepted
    exact ⟨RangeQuery.mem_selected.mpr ⟨listed, Bool.and_eq_true_iff.mpr ⟨admitted, passed⟩⟩,
      accepted⟩
  refine ⟨plan, _, fits, answers.lastKey, ?_⟩
  rw [← fits.forward]
  refine ⟨?_, ?_, ?_, ?_, ?_, ?_⟩
  · rw [rows]
    exact Engine.returned_sorted
  · exact fun row member => (of_mem_returned fit same succeeds member).2 plan planned
  · intro ended row offered passed
    obtain ⟨listed, accepted⟩ := selected row offered passed
    rw [rows]
    exact Engine.nextStart_none (starts.sized fit.2.1 fit.2.2) ended listed accepted
  · intro key next
    obtain ⟨final, window, rfl, _⟩ := Engine.nextStart_some next
    obtain ⟨_, selects⟩ := RangeQuery.mem_selected.mp (List.mem_of_mem_take window)
    exact (Bool.and_eq_true_iff.mp selects).2
  · intro key next row member
    obtain ⟨final, _, rfl, before⟩ := Engine.nextStart_some next
    rw [rows] at member
    exact (before row member).imp_left (congrArg Row.key)
  · intro key next row offered passed
    obtain ⟨final, window, rfl, _⟩ := Engine.nextStart_some next
    obtain ⟨listed, accepted⟩ := selected row offered passed
    rw [rows]
    exact (Engine.returned_or_later listed accepted).imp_right fun beyond => beyond final window

namespace PageRequest

structure Covers (request : PageRequest) (reads : List PageRead) (after : Option RowKey) :
    Prop where
  ordered : (reads.flatMap PageRead.returned).Pairwise fun a b =>
    RangeQuery.precedes request.forward a.key b.key = true
  later : ∀ row ∈ reads.flatMap PageRead.returned,
    after.all (RangeQuery.precedes request.forward · row.key) = true
  complete : (∃ read ∈ reads, read.response.lastKey = none) → ∀ row : Row,
    after.all (RangeQuery.precedes request.forward · row.key) = true →
    (∀ read ∈ reads, read.Offers row) → row ∈ reads.flatMap PageRead.returned

variable {request : PageRequest} {tables : Dict String Table} {read : PageRead}
  {reads rest : List PageRead} {start : Option String} {after : Option RowKey}

theorem Covers.last (steps : read.Steps request.forward after none) :
    request.Covers [read] after := by
  have all : [read].flatMap PageRead.returned = read.returned := by simp
  refine ⟨?_, ?_, ?_⟩
  · rw [all]
    exact steps.ordered
  · rw [all]
    exact steps.later
  · rw [all]
    exact fun _ row passed offered => steps.last rfl row (offered read List.mem_cons_self) passed

theorem Covers.cons {key : RowKey} (steps : read.Steps request.forward after (some key))
    (more : read.response.lastKey ≠ none) (covers : request.Covers rest (some key)) :
    request.Covers (read :: rest) after := by
  have onwards : ∀ row ∈ rest.flatMap PageRead.returned,
      RangeQuery.precedes request.forward key row.key = true := covers.later
  refine ⟨?_, ?_, ?_⟩
  · rw [List.flatMap_cons]
    refine List.pairwise_append.mpr ⟨steps.ordered, covers.ordered, fun a first b second => ?_⟩
    rcases steps.within key rfl a first with same | less
    · rw [same]
      exact onwards b second
    · exact RangeQuery.precedes_trans less (onwards b second)
  · rw [List.flatMap_cons]
    intro row member
    rcases List.mem_append.mp member with first | second
    · exact steps.later row first
    · have reached := steps.onward key rfl
      cases after with
      | none => rfl
      | some start => exact RangeQuery.precedes_trans reached (onwards row second)
  · rw [List.flatMap_cons]
    rintro ⟨ended, member, done⟩ row passed offered
    have among : ended ∈ rest := by
      rcases List.mem_cons.mp member with rfl | among
      · exact absurd done more
      · exact among
    rcases steps.beyond key rfl row (offered read List.mem_cons_self) passed with first | beyond
    · exact List.mem_append_left _ first
    · exact List.mem_append_right _ (covers.complete ⟨ended, among, done⟩ row beyond
        fun other there => offered other (List.mem_cons_of_mem _ there))

theorem Follow.covers (fit : ∀ read ∈ reads, read.Fit tables)
    (begins : request.Begins tables start after) (follow : request.Follow start reads) :
    request.Covers reads after := by
  induction reads generalizing start after with
  | nil =>
      refine ⟨List.Pairwise.nil, fun row member => absurd member List.not_mem_nil, ?_⟩
      rintro ⟨read, member, _⟩
      exact absurd member List.not_mem_nil
  | cons read rest ih =>
      obtain ⟨⟨limit, same⟩, succeeds, onward⟩ := follow
      obtain ⟨plan, next, fits, cursor, steps⟩ :=
        PageRead.steps (fit read List.mem_cons_self) begins same succeeds
      cases next with
      | none =>
          rw [Option.map_none] at cursor
          rw [cursor] at onward
          obtain rfl : rest = [] := onward
          exact .last steps
      | some key =>
          rw [Option.map_some] at cursor
          rw [cursor] at onward
          refine .cons steps ?_ ?_
          · rw [cursor]
            exact Option.some_ne_none _
          · exact ih (fun other member => fit other (List.mem_cons_of_mem _ member))
              (begins_encode fits key) onward

/-- What reading a request page after page comes to. -/
structure Complete (request : PageRequest) (reads : List PageRead) : Prop where
  ordered : (reads.flatMap PageRead.returned).Pairwise fun a b =>
    RangeQuery.precedes request.forward a.key b.key = true
  offered : ∀ read ∈ reads, ∀ row ∈ read.returned, read.Offers row
  listed : ∀ read ∈ reads, read.Lists
  advances : ∀ read ∈ reads, read.Advances
  once : (∃ read ∈ reads, read.response.lastKey = none) → ∀ row : Row,
    (∀ read ∈ reads, read.Offers row) → (reads.flatMap PageRead.returned).count row = 1
  whole : (∃ read ∈ reads, read.response.lastKey = none) → ∀ engine store limit plan,
    (∀ read ∈ reads, read.engine = engine ∧ read.session.store = store) →
    ((request.again limit none).plan engine).result = .ok plan →
    reads.flatMap PageRead.returned =
      (plan.range.selected (store.rowsOf plan.space)).filter (engine.accepts plan)

theorem nodup_of_precedes {forward : Bool} {rows : List Row}
    (ordered : rows.Pairwise fun a b => RangeQuery.precedes forward a.key b.key = true) :
    rows.Nodup := by
  refine ordered.imp fun {a b} less => ?_
  rintro rfl
  rw [RangeQuery.precedes_irrefl] at less
  cases less

theorem eq_of_precedes {forward : Bool} {rows others : List Row}
    (ordered : rows.Pairwise fun a b => RangeQuery.precedes forward a.key b.key = true)
    (otherOrdered : others.Pairwise fun a b => RangeQuery.precedes forward a.key b.key = true)
    (same : ∀ row, row ∈ rows ↔ row ∈ others) : rows = others := by
  have perm := (List.perm_ext_iff_of_nodup (nodup_of_precedes ordered)
    (nodup_of_precedes otherOrdered)).mpr same
  refine perm.eq_of_pairwise (fun a b _ _ less more => ?_) ordered otherOrdered
  have cycle := RangeQuery.precedes_trans less more
  rw [RangeQuery.precedes_irrefl] at cycle
  cases cycle

theorem complete_of_follow (fit : ∀ read ∈ reads, read.Fit tables)
    (follow : request.Follow none reads) : request.Complete reads := by
  have covers := follow.covers fit begins_none
  have offered : ∀ read ∈ reads, ∀ row ∈ read.returned, read.Offers row := by
    intro read member row returned
    obtain ⟨⟨limit, start, same⟩, succeeds⟩ := follow.each read member
    exact (PageRead.of_mem_returned (fit read member) same succeeds returned).1
  refine ⟨covers.ordered, offered, ?_, ?_, ?_, ?_⟩
  · intro read member
    obtain ⟨⟨limit, start, same⟩, succeeds⟩ := follow.each read member
    exact PageRead.lists (fit read member) same succeeds
  · intro read member
    obtain ⟨⟨limit, start, same⟩, succeeds⟩ := follow.each read member
    exact PageRead.advances (fit read member) same succeeds
  · intro ended row offers
    exact List.count_eq_one_of_mem (nodup_of_precedes covers.ordered)
      (covers.complete ended row rfl offers)
  · intro ended engine store limit plan steady planned
    obtain ⟨fits, starts⟩ := plan_ok planned
    have unstarted : plan.range.after = none := starts.first rfl
    obtain ⟨some, among, _⟩ := id ended
    have tablesSame : engine.tables = tables := by
      rw [← (steady some among).1]
      exact (fit some among).1
    rw [tablesSame] at fits
    have offers : ∀ read ∈ reads, ∀ row, read.Offers row ↔
        row ∈ (plan.range.selected (store.rowsOf plan.space)).filter (engine.accepts plan) := by
      intro read member row
      obtain ⟨⟨limit, start, same⟩, succeeds⟩ := follow.each read member
      obtain ⟨sameEngine, sameStore⟩ := steady read member
      rw [PageRead.offers_iff (fit read member) same succeeds fits, sameEngine, sameStore,
        List.mem_filter, RangeQuery.mem_selected, RangeQuery.selects, unstarted]
      simp [and_assoc]
    have sorted := (plan.range.selected_sorted (store.rowsOf_ascending plan.space)).sublist
      (@List.filter_sublist _ (engine.accepts plan) _)
    rw [fits.forward] at sorted
    refine eq_of_precedes covers.ordered sorted fun row => ⟨fun member => ?_, fun member => ?_⟩
    · obtain ⟨read, listed, returned⟩ := List.mem_flatMap.mp member
      exact (offers read listed row).mp (offered read listed row returned)
    · exact covers.complete ended row rfl fun read listed => (offers read listed row).mpr member

theorem complete_with_write_between :
    let notes : Table := ⟨"notes", "id", none, [], none⟩
    let engine : Engine := ⟨[("notes", notes)], Config.default, [], [], 0⟩
    let note (id : String) (store : Store) : Store :=
      store.put ⟨"notes", none⟩ ⟨.string id, []⟩ (Document.ofItem [("id", .string id)])
    let request : PageRequest :=
      .scan ⟨"notes", none, none, none, .none, none, none, none, none, none⟩
    let read (store : Store) (request : PageRequest) : PageRead :=
      let session := Session.ofStore store
      ⟨engine, session, request, match ((request.answer engine).exec session).1 with
        | .ok response => response
        | .error _ => ⟨[], 0, 0, none, none⟩⟩
    let before := note "a" (note "b" .empty)
    let first := read before (request.again (some 1) none)
    let second := read (note "c" before) (request.again none first.response.lastKey)
    first.response.lastKey ≠ none ∧ second.response.lastKey = none ∧
      ([first, second].flatMap PageRead.returned).map Row.key =
        [⟨.string "a", []⟩, ⟨.string "b", []⟩, ⟨.string "c", []⟩] ∧
      request.Complete [first, second] := by
  intro notes engine note request read before first second
  have succeeds : ∀ store request,
      ((request.answer engine).exec (Session.ofStore store)).1.isOk = true →
      (read store request).Succeeds := by
    intro store request ok
    simp only [PageRead.Succeeds, read]
    cases ran : (request.answer engine).exec (Session.ofStore store) with
    | mk outcome after =>
        rw [ran] at ok
        cases outcome with
        | ok response => exact ⟨after, rfl⟩
        | error failure => cases ok
  have sized : 0 < Config.default.defaultPageSize ∧ 0 < Config.default.maxPageSize := by decide
  have fit : ∀ store request, (read store request).Fit engine.tables := fun _ _ => ⟨rfl, sized⟩
  have firstFit : first.Fit engine.tables := fit before (request.again (some 1) none)
  have secondFit : second.Fit engine.tables :=
    fit (note "c" before) (request.again none first.response.lastKey)
  have firstSucceeds : first.Succeeds :=
    succeeds before (request.again (some 1) none) (by decide +kernel)
  have secondSucceeds : second.Succeeds :=
    succeeds (note "c" before) (request.again none first.response.lastKey) (by decide +kernel)
  have firstRequest : first.request = request.again (some 1) none := rfl
  have secondRequest : second.request = request.again none first.response.lastKey := rfl
  have more : first.response.lastKey ≠ none := by decide +kernel
  have ended : second.response.lastKey = none := by decide +kernel
  have rows : ([first, second].flatMap PageRead.returned).map Row.key =
      [⟨.string "a", []⟩, ⟨.string "b", []⟩, ⟨.string "c", []⟩] := by decide +kernel
  clear_value second
  clear_value first
  refine ⟨more, ended, rows, @complete_of_follow request engine.tables [first, second] ?_ ?_⟩
  · intro read member
    rcases List.mem_cons.mp member with rfl | member
    · exact firstFit
    · rw [List.mem_singleton.mp member]
      exact secondFit
  · obtain ⟨token, cursor⟩ := Option.ne_none_iff_exists'.mp more
    refine ⟨⟨some 1, firstRequest⟩, firstSucceeds, ?_⟩
    rw [cursor]
    rw [cursor] at secondRequest
    refine ⟨⟨none, secondRequest⟩, secondSucceeds, ?_⟩
    rw [ended]

end PageRequest
end ItemStore
