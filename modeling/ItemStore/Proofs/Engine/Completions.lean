import ItemStore.Proofs.Engine.Keeping
import ItemStore.Proofs.Expression.Completions

/-!
Requests that use placeholders they do not define. A request that gets by such a placeholder has not
looked at it: it is answered, and changes the store, as if the placeholder stood for anything.
-/

namespace ItemStore

namespace Action

variable {α β γ δ : Type} {kind : Failure → Prop} {related : α → β → Prop}

inductive Meets (kind : Failure → Prop) (related : α → β → Prop) :
    Except Failure α × Session → Except Failure β × Session → Prop
  | stops {failure : Failure} {after : Session} {second : Except Failure β × Session} :
      kind failure → Meets kind related (.error failure, after) second
  | fails (failure : Failure) (after : Session) :
      Meets kind related (.error failure, after) (.error failure, after)
  | returns {value : α} {other : β} (after : Session) :
      related value other → Meets kind related (.ok value, after) (.ok other, after)

/-- The actions go along with each other, unless the first ends in a failure of the kind. -/
def Follows (kind : Failure → Prop) (related : α → β → Prop) (first : Action α)
    (second : Action β) : Prop :=
  ∀ session, Meets kind related (first.exec session) (second.exec session)

namespace Follows

theorem refl (action : Action α) : action.Follows kind Eq action := by
  intro session
  cases action.exec session with
  | mk outcome after =>
      cases outcome with
      | ok value => exact .returns after rfl
      | error failure => exact .fails failure after

theorem pure {value : α} {other : β} (fit : related value other) :
    (Pure.pure value : Action α).Follows kind related (Pure.pure other) :=
  fun session => .returns session fit

theorem bind {first : Action α} {second : Action β} {next : α → Action γ} {other : β → Action δ}
    {later : γ → δ → Prop} (here : first.Follows kind related second)
    (there : ∀ x y, related x y → (next x).Follows kind later (other y)) :
    (first >>= next).Follows kind later (second >>= other) := by
  intro session
  rw [exec_bind, exec_bind]
  have met := here session
  generalize first.exec session = one at met ⊢
  generalize second.exec session = two at met ⊢
  cases met with
  | stops fits => exact .stops fits
  | fails failure after => exact .fails failure after
  | returns after fit => exact there _ _ fit after

theorem after (step : Action α) {next : α → Action γ} {other : α → Action δ} {later : γ → δ → Prop}
    (there : ∀ value, (next value).Follows kind later (other value)) :
    (step >>= next).Follows kind later (step >>= other) :=
  (refl step).bind fun value _ same => same ▸ there value

theorem afterCheck {check : Action α} (still : check.Still) {next : α → Action γ}
    {other : α → Action δ} {later : γ → δ → Prop}
    (there : ∀ value, check.result = .ok value → (next value).Follows kind later (other value)) :
    (check >>= next).Follows kind later (check >>= other) := by
  intro session
  rw [exec_bind, exec_bind, still session]
  cases outcome : check.result with
  | ok value => exact there value outcome session
  | error failure => exact .fails failure session

theorem expression {first second : Except ExpressionError α} {fault : ExpressionError → Prop}
    (agree : AgreesUnless fault first second)
    (fits : ∀ error, fault error → kind (.expression error)) :
    (Action.expression first).Follows kind Eq (Action.expression second) := by
  rcases agree with ⟨error, rfl, faulty⟩ | rfl
  · exact fun session => .stops (fits error faulty)
  · exact refl _

theorem foldlM {step other : β → α → Action β}
    (each : ∀ state value, (step state value).Follows kind Eq (other state value)) :
    ∀ (values : List α) (state : β),
      (values.foldlM step state).Follows kind Eq (values.foldlM other state)
  | [], _ => refl _
  | value :: rest, state => by
      rw [List.foldlM_cons, List.foldlM_cons]
      exact (each state value).bind fun next _ same => same ▸ foldlM each rest next

end Follows
end Action

/-! The expressions of a request. -/

structure RequestParts where
  table : String
  bindings : Bindings
  condition : Option Condition := none
  update : Option Update := none
  keyCondition : Option Condition := none
  filter : Option Condition := none
  projection : Option (List Path) := none

namespace RequestParts

def readAs {α : Type} (parse : String → Except ExpressionError α) (text : Option String) :
    Option α :=
  text.bind fun text => (parse text).toOption

def readUpdate : Option String → Option Update
  | none => some Update.empty
  | some text => (Update.parse text).toOption

def placeholders (parts : RequestParts) : Placeholders :=
  .ofOption .ofUpdate parts.update ++ .ofOption .ofCondition parts.condition ++
    .ofOption .ofCondition parts.keyCondition ++ .ofOption .ofCondition parts.filter ++
    .ofOption .ofPaths parts.projection

end RequestParts

namespace Request

open RequestParts

def parts : Request → Option RequestParts
  | .getItem request => some {
      table := request.table
      bindings := ⟨request.names, []⟩
      projection := readAs Projection.parse request.projection }
  | .putItem request => some {
      table := request.table
      bindings := request.bindings
      condition := readAs Condition.parse request.condition }
  | .updateItem request => some {
      table := request.table
      bindings := request.bindings
      condition := readAs Condition.parse request.condition
      update := readUpdate request.update }
  | .deleteItem request => some {
      table := request.table
      bindings := request.bindings
      condition := readAs Condition.parse request.condition }
  | .query request => some {
      table := request.table
      bindings := request.bindings
      keyCondition := readAs Condition.parse request.keyCondition
      filter := readAs Condition.parse request.filter
      projection := readAs Projection.parse request.projection }
  | .scan request => some {
      table := request.table
      bindings := request.bindings
      filter := readAs Condition.parse request.filter
      projection := readAs Projection.parse request.projection }
  | .batchGet _ | .batchWrite _ | .transactGet _ | .transactWrite _ => none

def withBindings (bindings : Bindings) : Request → Request
  | .getItem request => .getItem { request with names := bindings.names }
  | .putItem request => .putItem { request with bindings := bindings }
  | .updateItem request => .updateItem { request with bindings := bindings }
  | .deleteItem request => .deleteItem { request with bindings := bindings }
  | .query request => .query { request with bindings := bindings }
  | .scan request => .scan { request with bindings := bindings }
  | request => request

end Request

def Bindings.Misses (given : Bindings) (failure : Failure) : Prop :=
  ∃ error, failure = .expression error ∧ given.Lacks error

namespace Engine

open Action

section Completed

variable (engine : Engine) {given full : Bindings} {used : Placeholders}

theorem checkBindings_eq (completes : full.Completes used given) :
    engine.checkBindings used given = engine.checkBindings used full := by
  rw [checkBindings, checkBindings, checkPlaceholders, checkPlaceholders,
    completes.checkAllUsed_eq, completes.validate_eq]

theorem misses {error : ExpressionError} (lacks : given.Lacks error) :
    given.Misses (.expression error) := ⟨error, rfl, lacks⟩

/-! What a check that has passed has read. -/

theorem readAs_eq {α : Type} {parse : String → Except ExpressionError α} {text : String} {part : α}
    (ok : (expression (parse text)).result = .ok part) :
    RequestParts.readAs parse (some text) = some part := by
  simp only [RequestParts.readAs, Option.bind_some, of_ofExcept_ok ok]
  rfl

theorem parseCondition_reads {text : Option String} {part : Option Condition}
    (ok : (parseCondition text).result = .ok part) :
    RequestParts.readAs Condition.parse text = part := by
  cases text with
  | none =>
      cases ok
      rfl
  | some text =>
      obtain ⟨condition, parsed, ok⟩ := (Still.expression _).of_bind_ok ok
      cases ok
      exact readAs_eq parsed

theorem parseProjection_reads {text : Option String} {part : Option (List Path)}
    (ok : (parseProjection text).result = .ok part) :
    RequestParts.readAs Projection.parse text = part := by
  cases text with
  | none =>
      cases ok
      rfl
  | some text =>
      obtain ⟨paths, parsed, ok⟩ := (Still.expression _).of_bind_ok ok
      cases ok
      exact readAs_eq parsed

theorem parseKeyCondition_reads {text : Option String} {part : Condition}
    (ok : (parseKeyCondition text).result = .ok part) :
    RequestParts.readAs Condition.parse text = some part := by
  cases text with
  | none => cases ok
  | some text => exact readAs_eq ok

theorem parseUpdate_reads {text : Option String} {part : Update}
    (ok : (parseUpdate text).result = .ok part) : RequestParts.readUpdate text = some part := by
  cases text with
  | none =>
      cases ok
      rfl
  | some text => exact readAs_eq ok

/-! Plans that differ in what their placeholders stand for. -/

def SamePlan (given full : Bindings) (plan other : WritePlan) : Prop :=
  plan.bindings = given ∧ other = { plan with bindings := full }

theorem planPut_follows {table : Table} {item : Item} {text : Option String} {returnsOld : Bool}
    (completes : full.Completes
      (.ofOption .ofCondition (RequestParts.readAs Condition.parse text)) given) :
    (engine.planPut table item text given returnsOld).Follows given.Misses (SamePlan given full)
      (engine.planPut table item text full returnsOld) := by
  refine .after _ fun _ => .after _ fun key => .after _ fun _ => .after _ fun _ => ?_
  refine .afterCheck (still_parseCondition _) fun condition parsed => ?_
  rw [parseCondition_reads parsed] at completes
  rw [engine.checkBindings_eq completes]
  exact .after _ fun _ => .pure ⟨rfl, rfl⟩

theorem planDelete_follows {table : Table} {key : Item} {text : Option String} {returnsOld : Bool}
    (completes : full.Completes
      (.ofOption .ofCondition (RequestParts.readAs Condition.parse text)) given) :
    (engine.planDelete table key text given returnsOld).Follows given.Misses (SamePlan given full)
      (engine.planDelete table key text full returnsOld) := by
  refine .after _ fun key => ?_
  refine .afterCheck (still_parseCondition _) fun condition parsed => ?_
  rw [parseCondition_reads parsed] at completes
  rw [engine.checkBindings_eq completes]
  exact .after _ fun _ => .pure ⟨rfl, rfl⟩

theorem planUpdate_follows {table : Table} {key : Item} {text other : Option String}
    {returnsOld : Bool}
    (completes : full.Completes (.ofOption .ofUpdate (RequestParts.readUpdate text) ++
      .ofOption .ofCondition (RequestParts.readAs Condition.parse other)) given) :
    (engine.planUpdate table key text other given returnsOld).Follows given.Misses
      (SamePlan given full) (engine.planUpdate table key text other full returnsOld) := by
  refine .after _ fun key => ?_
  refine .afterCheck (still_parseUpdate _) fun update parsedUpdate => ?_
  refine .afterCheck (still_parseCondition _) fun condition parsed => ?_
  rw [parseUpdate_reads parsedUpdate, parseCondition_reads parsed,
    Placeholders.ofOption] at completes
  refine .bind (.expression (update.validate_agrees completes _) fun _ => misses) fun _ _ _ => ?_
  rw [engine.checkBindings_eq completes]
  exact .after _ fun _ => .pure ⟨rfl, rfl⟩

variable (completes : full.Completes used given)

include completes

theorem conditionHolds_follows {plan other : WritePlan} (same : SamePlan given full plan other)
    (current : Option Item) :
    (conditionHolds plan current).Follows given.Misses Eq (conditionHolds other current) := by
  obtain ⟨rfl, rfl⟩ := same
  simp only [conditionHolds]
  split
  · exact .refl _
  · exact .expression (Condition.evaluate_agrees completes _ _) fun _ => misses

theorem updatedItem_follows {plan other : WritePlan} (same : SamePlan given full plan other)
    (update : Update) (current : Option Item) :
    (updatedItem plan update current).Follows given.Misses Eq
      (updatedItem other update current) := by
  obtain ⟨rfl, rfl⟩ := same
  refine .bind (.expression (update.apply_agrees completes _) fun _ => misses) ?_
  rintro item _ rfl
  exact .refl _

theorem execute_follows {plan other : WritePlan} (same : SamePlan given full plan other) :
    (engine.execute plan).Follows given.Misses Eq (engine.execute other) := by
  obtain ⟨table, key, keyItem, action, condition, bindings, returnsOld⟩ := plan
  have renamed := same.2
  subst renamed
  refine .after _ fun stored => .bind (conditionHolds_follows completes same _) ?_
  rintro holds _ rfl
  split
  · cases action with
    | put | delete | check => exact .refl _
    | update update =>
        refine .bind (updatedItem_follows completes same update _) ?_
        rintro item _ rfl
        exact .refl _
  · exact .refl _

theorem executeAlone_follows {plan other : WritePlan} (same : SamePlan given full plan other) :
    (engine.executeAlone plan).Follows given.Misses Eq (engine.executeAlone other) := by
  refine .after _ fun _ => .bind (engine.execute_follows completes same) ?_
  rintro outcome _ rfl
  exact .refl _

theorem writeAlone_follows {plan other : WritePlan} (same : SamePlan given full plan other) :
    (engine.writeAlone plan).Follows given.Misses Eq (engine.writeAlone other) := by
  refine .after _ fun _ => .bind (engine.executeAlone_follows completes same) ?_
  rintro outcome _ rfl
  exact .refl _

theorem projected_follows (paths : Option (List Path)) (item : Item) :
    (projected paths given item).Follows given.Misses Eq (projected paths full item) := by
  cases paths with
  | none => exact .refl _
  | some paths => exact .expression (Projection.apply_agrees completes paths item) fun _ => misses

theorem updatedParts_follows (update : Update) (image : Option Item) :
    (updatedParts update given image).Follows given.Misses Eq
      (updatedParts update full image) := by
  cases image with
  | none => exact .refl _
  | some item =>
      refine .bind (projected_follows completes _ item) ?_
      rintro parts _ rfl
      exact .refl _

theorem updateAttributes_follows (returnValues : ReturnValues) (update : Update)
    (old new : Option Item) :
    (updateAttributes returnValues update given old new).Follows given.Misses Eq
      (updateAttributes returnValues update full old new) := by
  cases returnValues with
  | none | allOld | allNew => exact .refl _
  | updatedOld => exact updatedParts_follows completes update old
  | updatedNew => exact updatedParts_follows completes update new

theorem projectFound_follows {plan : ReadPlan} (has : plan.names = given.names)
    (found : Option Item) :
    (projectFound plan found).Follows given.Misses Eq
      (projectFound { plan with names := full.names } found) := by
  cases found with
  | none => exact .refl _
  | some item =>
      simp only [projectFound, has]
      refine .bind (projected_follows completes plan.paths item) ?_
      rintro shown _ rfl
      exact .refl _

theorem passes_follows (filter : Option Condition) (item : Item) :
    (passes filter given item).Follows given.Misses Eq (passes filter full item) := by
  cases filter with
  | none => exact .refl _
  | some condition =>
      exact .expression (condition.evaluate_agrees completes item) fun _ => misses

omit completes in
def SamePage (given full : Bindings) (plan other : PagePlan) : Prop :=
  plan.bindings = given ∧ other = { plan with bindings := full }

theorem addRow_follows {plan other : PagePlan} (same : SamePage given full plan other)
    (page : Page) (row : Row) :
    (engine.addRow plan page row).Follows given.Misses Eq (engine.addRow other page row) := by
  obtain ⟨rfl, rfl⟩ := same
  refine .after _ fun item => ?_
  split
  · exact .refl _
  · refine .bind (passes_follows completes _ item) ?_
    rintro passed _ rfl
    split
    · split
      · exact .refl _
      · refine .bind (projected_follows completes _ item) ?_
        rintro shown _ rfl
        exact .refl _
    · exact .refl _

theorem readPage_follows {plan other : PagePlan} (same : SamePage given full plan other)
    (detail : Option CapacityDetail) :
    (engine.readPage plan detail).Follows given.Misses Eq (engine.readPage other detail) := by
  have rows := engine.addRow_follows completes same
  obtain ⟨rfl, rfl⟩ := same
  refine .after _ fun _ => .after _ fun _ => .after _ fun found => .after _ fun _ => ?_
  refine .bind (.foldlM rows _ _) ?_
  rintro page _ rfl
  exact .refl _

end Completed

section Requests

variable (engine : Engine) {full : Bindings}

open RequestParts

theorem planGet_follows {request : GetItemRequest}
    (completes : full.Completes (.ofOption .ofPaths (readAs Projection.parse request.projection))
      ⟨request.names, []⟩) :
    (engine.planGet request.table request.key request.projection request.names).Follows
      (Bindings.Misses ⟨request.names, []⟩)
      (fun plan other => plan.names = request.names ∧ other = { plan with names := full.names })
      (engine.planGet request.table request.key request.projection full.names) := by
  refine .after _ fun table => .after _ fun key => ?_
  have checked : (engine.parsePaths request.projection request.names).Follows
      (Bindings.Misses ⟨request.names, []⟩) Eq
      (engine.parsePaths request.projection full.names) := by
    refine .afterCheck (still_parseProjection _) fun paths parsed => ?_
    rw [parseProjection_reads parsed] at completes
    simp only [checkPlaceholders, Placeholders.checkAllUsed,
      completes.names.unused_eq fun _ fit => fit]
    exact .refl _
  refine .bind checked ?_
  rintro paths _ rfl
  exact .pure ⟨rfl, rfl⟩

theorem getItem_follows {request : GetItemRequest}
    (completes : full.Completes (.ofOption .ofPaths (readAs Projection.parse request.projection))
      ⟨request.names, []⟩) :
    (engine.getItem request).Follows (Bindings.Misses ⟨request.names, []⟩) Eq
      (engine.getItem { request with names := full.names }) := by
  refine .bind (engine.planGet_follows completes) ?_
  rintro plan _ ⟨has, rfl⟩
  refine .after _ fun _ => .after _ fun _ => .after (engine.find plan) fun found =>
    .after _ fun _ => .bind (projectFound_follows completes has found) ?_
  rintro shown _ rfl
  exact .refl _

theorem putItem_follows {request : PutItemRequest}
    (completes : full.Completes (.ofOption .ofCondition (readAs Condition.parse request.condition))
      request.bindings) :
    (engine.putItem request).Follows request.bindings.Misses Eq
      (engine.putItem { request with bindings := full }) := by
  refine .after _ fun table => .after _ fun _ => .bind (engine.planPut_follows completes) ?_
  intro plan other same
  refine .bind (engine.writeAlone_follows completes same) ?_
  rintro images _ rfl
  exact .refl _

theorem deleteItem_follows {request : DeleteItemRequest}
    (completes : full.Completes (.ofOption .ofCondition (readAs Condition.parse request.condition))
      request.bindings) :
    (engine.deleteItem request).Follows request.bindings.Misses Eq
      (engine.deleteItem { request with bindings := full }) := by
  refine .after _ fun table => .after _ fun _ => .bind (engine.planDelete_follows completes) ?_
  intro plan other same
  refine .bind (engine.writeAlone_follows completes same) ?_
  rintro images _ rfl
  exact .refl _

theorem updateItem_follows {request : UpdateItemRequest}
    (completes : full.Completes (.ofOption .ofUpdate (readUpdate request.update) ++
      .ofOption .ofCondition (readAs Condition.parse request.condition)) request.bindings) :
    (engine.updateItem request).Follows request.bindings.Misses Eq
      (engine.updateItem { request with bindings := full }) := by
  refine .after _ fun table => .bind (engine.planUpdate_follows completes) ?_
  intro plan other same
  refine .bind (engine.writeAlone_follows completes same) ?_
  rintro ⟨old, new⟩ _ rfl
  obtain ⟨has, rfl⟩ := same
  refine .bind (by rw [has]; exact updateAttributes_follows completes _ _ _ _) ?_
  rintro shown _ rfl
  exact .refl _

theorem planQuery_follows {request : QueryRequest}
    (completes : full.Completes
      (.ofOption .ofCondition (readAs Condition.parse request.keyCondition) ++
        .ofOption .ofCondition (readAs Condition.parse request.filter) ++
        .ofOption .ofPaths (readAs Projection.parse request.projection)) request.bindings) :
    (engine.planQuery request).Follows request.bindings.Misses (SamePage request.bindings full)
      (engine.planQuery { request with bindings := full }) := by
  refine .after _ fun table => .after _ fun index => .after _ fun _ => .after _ fun size => ?_
  refine .afterCheck (still_parseKeyCondition _) fun keyCondition parsedKey => ?_
  refine .afterCheck (still_parseCondition _) fun filter parsedFilter => ?_
  refine .afterCheck (still_parseProjection _) fun paths parsedPaths => ?_
  rw [parseKeyCondition_reads parsedKey, parseCondition_reads parsedFilter,
    parseProjection_reads parsedPaths, Placeholders.ofOption] at completes
  simp only [checkPlaceholders, completes.checkAllUsed_eq]
  refine .after _ fun _ => .bind (.expression
    (KeyCondition.compile_agrees completes keyCondition _ _) fun _ => misses) ?_
  rintro key _ rfl
  exact .after _ fun _ => .after _ fun _ => .pure ⟨rfl, rfl⟩

theorem query_follows {request : QueryRequest}
    (completes : full.Completes
      (.ofOption .ofCondition (readAs Condition.parse request.keyCondition) ++
        .ofOption .ofCondition (readAs Condition.parse request.filter) ++
        .ofOption .ofPaths (readAs Projection.parse request.projection)) request.bindings) :
    (engine.query request).Follows request.bindings.Misses Eq
      (engine.query { request with bindings := full }) :=
  .bind (engine.planQuery_follows completes) fun _ _ same =>
    engine.readPage_follows completes same _

theorem planScan_follows {request : ScanRequest}
    (completes : full.Completes (.ofOption .ofCondition (readAs Condition.parse request.filter) ++
      .ofOption .ofPaths (readAs Projection.parse request.projection)) request.bindings) :
    (engine.planScan request).Follows request.bindings.Misses (SamePage request.bindings full)
      (engine.planScan { request with bindings := full }) := by
  refine .after _ fun table => .after _ fun index => .after _ fun _ => .after _ fun size => ?_
  refine .afterCheck (still_parseCondition _) fun filter parsedFilter => ?_
  refine .afterCheck (still_parseProjection _) fun paths parsedPaths => ?_
  rw [parseCondition_reads parsedFilter, parseProjection_reads parsedPaths] at completes
  simp only [checkPlaceholders, completes.checkAllUsed_eq]
  exact .after _ fun _ => .after _ fun _ => .pure ⟨rfl, rfl⟩

theorem scan_follows {request : ScanRequest}
    (completes : full.Completes (.ofOption .ofCondition (readAs Condition.parse request.filter) ++
      .ofOption .ofPaths (readAs Projection.parse request.projection)) request.bindings) :
    (engine.scan request).Follows request.bindings.Misses Eq
      (engine.scan { request with bindings := full }) :=
  .bind (engine.planScan_follows completes) fun _ _ same =>
    engine.readPage_follows completes same _

theorem answer_follows {request : Request} {parts : RequestParts}
    (holds : request.parts = some parts)
    (completes : full.Completes parts.placeholders parts.bindings) :
    (engine.answer request).Follows parts.bindings.Misses Eq
      (engine.answer (request.withBindings full)) := by
  have wrap : ∀ {α : Type} {first second : Action α} (shape : α → Response),
      first.Follows parts.bindings.Misses Eq second →
      (first >>= fun response => pure (shape response)).Follows parts.bindings.Misses Eq
        (second >>= fun response => pure (shape response)) := by
    intro α first second shape follows
    refine follows.bind ?_
    rintro response _ rfl
    exact .refl _
  cases request with
  | batchGet | batchWrite | transactGet | transactWrite => cases holds
  | getItem request =>
      cases holds
      exact wrap .item (engine.getItem_follows (by simpa [placeholders] using completes))
  | putItem request =>
      cases holds
      exact wrap .written (engine.putItem_follows (by simpa [placeholders] using completes))
  | updateItem request =>
      cases holds
      exact wrap .written (engine.updateItem_follows (by simpa [placeholders] using completes))
  | deleteItem request =>
      cases holds
      exact wrap .written (engine.deleteItem_follows (by simpa [placeholders] using completes))
  | query request =>
      cases holds
      exact wrap .page (engine.query_follows (by simpa [placeholders] using completes))
  | scan request =>
      cases holds
      exact wrap .page (engine.scan_follows (by simpa [placeholders] using completes))

end Requests

end Engine
end ItemStore
