import ItemStore.Proofs.Engine.SingleWrites
import ItemStore.Proofs.Engine.Transactions
import ItemStore.Proofs.Expression.WrittenValues
import ItemStore.Proofs.Value.Codec

/-!
What a request to update an item tells of the item after it, if it is asked for what it updates: the
parts of the new item at the targets of the update.
-/

namespace ItemStore

theorem Store.ordered_of_item? {rows : Store} {space : Space} {key : RowKey} {item : Item}
    (read : rows.item? space key = some (some item)) : item.Ordered := by
  rw [item?] at read
  split at read
  · cases read
  · obtain ⟨_, decoded, same⟩ := Option.map_eq_some_iff.mp read
    cases same
    exact (Document.ordered_of_toItem? decoded).1

namespace Engine

open Action

variable {engine : Engine}

theorem execute_update_ok {plan : WritePlan} {update : Update}
    (action : plan.action = .update update) {session after : Session} {outcome : WriteOutcome}
    (ok : (engine.execute plan).exec session = (.ok outcome, after)) :
    ∃ stored, session.transaction.rows.item? plan.space plan.key = some stored ∧
      ((∃ item, outcome = .conditionFailed item) ∨
        ∃ new, outcome = .applied (engine.visible plan.table stored) (some new) ∧
          update.apply plan.bindings
            ((engine.visible plan.table stored).getD plan.keyItem) = .ok new) := by
  obtain ⟨stored, loaded, loading, ran⟩ := of_exec_bind_ok ok
  obtain ⟨read, rfl⟩ := load_ok loading
  refine ⟨stored, read, ?_⟩
  obtain ⟨held, _, ran⟩ := (still_conditionHolds _ _).of_exec_bind_ok ran
  cases held with
  | false =>
      obtain ⟨_, _, _, ran⟩ := of_exec_bind_ok ran
      cases ran
      exact Or.inl ⟨_, rfl⟩
  | true =>
      simp only [if_true, action] at ran
      obtain ⟨new, updated, ran⟩ := (still_updatedItem _ _ _).of_exec_bind_ok ran
      obtain ⟨_, _, _, ran⟩ := of_exec_bind_ok ran
      obtain ⟨_, _, _, ran⟩ := of_exec_bind_ok ran
      obtain ⟨_, _, _, ran⟩ := of_exec_bind_ok ran
      cases ran
      exact Or.inr ⟨new, rfl, (updatedItem_ok updated).1⟩

theorem planOfUpdate_ok {request : UpdateItemRequest} {plan : WritePlan}
    (planned : engine.planOfUpdate request = .ok plan) :
    ∃ update, (parseUpdate request.update).result = .ok update ∧ plan.action = .update update ∧
      plan.bindings = request.bindings ∧ plan.keyItem = request.key ∧ plan.Prepared := by
  obtain ⟨table, _, planned⟩ := bind_ok planned
  obtain ⟨prepared, _⟩ := planUpdate_ok planned
  obtain ⟨_, _, planned⟩ := (still_keyOf _ _).of_bind_ok planned
  obtain ⟨update, parsed, planned⟩ := (still_parseUpdate _).of_bind_ok planned
  obtain ⟨_, _, planned⟩ := (still_parseCondition _).of_bind_ok planned
  obtain ⟨_, _, planned⟩ := (Still.expression _).of_bind_ok planned
  obtain ⟨_, _, planned⟩ := (engine.still_checkBindings _ _).of_bind_ok planned
  cases planned
  exact ⟨update, parsed, rfl, rfl, rfl, prepared⟩

theorem get?_after_applied (quiet : ∀ hook ∈ engine.hooks, hook.Quiet) {plan : WritePlan}
    (prepared : plan.Prepared) {session after : Session} {old : Option Item} {new : Item}
    (ok : (engine.executeAlone plan).exec session = (.ok (.applied old (some new)), after)) :
    after.store.get? plan.space plan.key = some (Document.ofItem new) := by
  obtain ⟨executed, ran, _, _, kept⟩ := engine.executeAlone_ok ok
  obtain ⟨stored, effect, _, told, outcome, rows, _⟩ := engine.execute_ok quiet prepared ran
  have same := effect_outcome told
  rw [outcome] at same
  obtain rfl : effect = engine.replacement plan stored (some new) := same
  have base : baseWrites plan stored (some new) =
      [⟨plan.space, plan.key, some (Document.ofItem new)⟩] := by
    cases stored <;> rfl
  rw [show after.store = _ from kept, rows, replacement, base, List.singleton_append]
  refine (Store.get?_after_elsewhere (RowWrite.apply _ _) fun write member sameSpace => ?_).trans ?_
  · obtain ⟨index, _, member⟩ := List.mem_flatMap.mp member
    obtain ⟨step, _, rfl⟩ := List.mem_map.mp member
    cases step <;> cases sameSpace
  · rw [Store.get?_apply, if_pos ⟨rfl, rfl⟩]

/-- What the answer tells is told of the item that the update makes of the one before it. -/
structure TellsUpdated (engine : Engine) (request : UpdateItemRequest) (session : Session)
    (response : WriteResponse) (after : Session) (plan : WritePlan) (update : Update)
    (before new : Item) : Prop where
  planned : engine.planOfUpdate request = .ok plan
  parsed : (parseUpdate request.update).result = .ok update
  current : ∃ stored, session.store.item? plan.space plan.key = some stored ∧
    before = (engine.visible plan.table stored).getD request.key
  applied : update.apply request.bindings before = .ok new
  kept : (∀ hook ∈ engine.hooks, hook.Quiet) →
    after.store.get? plan.space plan.key = some (Document.ofItem new)
  reports : ∃ locations,
    update.Reports request.bindings before new locations response.attributes

theorem updatedParts_eq {update : Update} {bindings : Bindings} {locations : List Location}
    (located : update.targets.mapM bindings.location = .ok locations) (item : Item) :
    updatedParts update bindings (some item) = pure (Update.partsShown item locations) := by
  have picked : projected (some update.targets) bindings item =
      pure (item.project (.ofLocations locations)) := by
    simp only [projected, Projection.apply, located]
    rfl
  simp only [updatedParts, picked, pure_bind]
  rfl

/-- A request that updates an item and is asked what it has updated tells of every value that `SET`
or `ADD` writes where its path leads. -/
theorem updateItem_tellsUpdated {request : UpdateItemRequest}
    (ordered : (Request.updateItem request).Ordered)
    (wanted : request.returnValues = some .updatedNew) {session after : Session}
    {response : WriteResponse}
    (ok : (engine.updateItem request).exec session = (.ok response, after)) :
    ∃ plan update before new,
      engine.TellsUpdated request session response after plan update before new := by
  rw [updateItem_eq] at ok
  obtain ⟨plan, made, ok⟩ := (Still.ofExcept _ _).of_exec_bind_ok ok
  have planned : engine.planOfUpdate request = .ok plan := of_ofExcept_ok made
  obtain ⟨update, parsed, action, bindings, keyItem, prepared⟩ := planOfUpdate_ok planned
  obtain ⟨images, written, writing, ok⟩ := of_exec_bind_ok ok
  obtain ⟨shown, told, ok⟩ := (still_partsIfWanted _ _ _).of_exec_bind_ok ok
  cases ok
  obtain ⟨_, cleared, clearing, writing⟩ := of_exec_bind_ok writing
  cases clearing
  obtain ⟨outcome, applied, alone, writing⟩ := of_exec_bind_ok writing
  obtain ⟨executed, ran, _⟩ := engine.executeAlone_ok alone
  obtain ⟨stored, read, ⟨item, rfl⟩ | ⟨new, rfl, made⟩⟩ := execute_update_ok action ran
  · cases writing
  cases writing
  rw [bindings, keyItem] at made
  have beforeOrdered : ((engine.visible plan.table stored).getD request.key).Ordered := by
    rw [← keyItem]
    refine current_ordered (keyItem ▸ ordered.1) fun item same => ?_
    subst same
    exact Store.ordered_of_item? read
  have valid := prepared.update update action
  rw [bindings] at valid
  obtain ⟨locations, reports⟩ := Update.reports beforeOrdered ordered.2 valid made
  refine ⟨plan, update, _, new, planned, parsed, ⟨stored, read, rfl⟩, made,
    fun quiet => get?_after_applied quiet prepared alone, locations, ?_⟩
  have updates : plan.updateOf = update := by
    rw [WritePlan.updateOf, action]
  have same : partsIfWanted request.returnValues plan
      (engine.visible plan.table stored, some new) =
        pure (Update.partsShown new locations) := by
    rw [partsIfWanted, wanted, updates, bindings]
    exact updatedParts_eq reports.targets new
  rw [same] at told
  cases told
  exact reports

end Engine

/-! Notes with their lines, which updates append to. -/

namespace LinedNotes

def notes : Table := ⟨"notes", "id", none, [], none⟩

def engine : Engine := ⟨[("notes", notes)], Config.default, [], [], 0⟩

def note (lines : List AttributeValue) : Item := [("id", .string "a"), ("lines", .list lines)]

def session : Session :=
  (engine.handle (.putItem ⟨"notes", note [.string "x"], none, .none, none, none, none⟩)
    (Session.ofStore .empty)).2

def request (update : String) (values : Item) : UpdateItemRequest :=
  ⟨"notes", [("id", .string "a")], some update, none, ⟨[], values⟩, some .updatedNew, none, none⟩

/-- A line at the position next after the last one, and an attribute that is new. -/
theorem tellsUpdated_nextLine :
    let asked := request "SET lines[1] = :v ADD edits :one"
      [(":one", .number "1"), (":v", .string "y")]
    ∃ response after, (engine.updateItem asked).exec session = (.ok response, after) ∧
      (response.attributes ==
        some [("edits", .number "1"), ("lines", .list [.string "y"])]) = true ∧
      ∃ plan update before new,
        engine.TellsUpdated asked session response after plan update before new := by
  intro asked
  have answered : ((engine.updateItem asked).exec session).1.toOption.any (fun response =>
      response.attributes == some [("edits", .number "1"), ("lines", .list [.string "y"])]) =
        true := by decide +kernel
  obtain ⟨response, after, ran, told⟩ := Action.ok_of_any answered
  exact ⟨response, after, ran, told, engine.updateItem_tellsUpdated ⟨by decide, by decide⟩ rfl ran⟩

/-- A line beyond that position is appended, but looked for where its path leads. -/
theorem updateItem_tells_nothing :
    let asked := request "SET lines[5] = :v" [(":v", .string "y")]
    ∃ response after, (engine.updateItem asked).exec session = (.ok response, after) ∧
      (after.store.item? ⟨"notes", none⟩ ⟨.string "a", []⟩ ==
        some (some (note [.string "x", .string "y"]))) = true ∧
      response.attributes = none := by
  intro asked
  have answered : ((engine.updateItem asked).exec session).1.toOption.any (fun response =>
      response.attributes.isNone) = true := by decide +kernel
  have stored : (((engine.updateItem asked).exec session).2.store.item?
      ⟨"notes", none⟩ ⟨.string "a", []⟩ ==
        some (some (note [.string "x", .string "y"]))) = true := by decide +kernel
  obtain ⟨response, after, ran, told⟩ := Action.ok_of_any answered
  rw [ran] at stored
  exact ⟨response, after, ran, stored, Option.isNone_iff_eq_none.mp told⟩

end LinedNotes
end ItemStore
