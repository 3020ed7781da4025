import ItemStore.Proofs.Engine.PlainMap

/-!
Requests to put, update or delete one item are one request: a plan is made, carried out alone, and
answered from the items before and after it.
-/

namespace ItemStore

namespace Action

variable {α β : Type}

theorem ext {action other : Action α}
    (same : ∀ session, action.exec session = other.exec session) : action = other :=
  funext same

theorem Still.bind_eq {action : Action α} {next other : α → Action β} {planned : Except Failure α}
    (still : action.Still) (made : action.result = planned)
    (same : ∀ value, planned = .ok value → next value = other value) :
    action >>= next = Action.ofExcept id planned >>= other := by
  refine ext fun session => ?_
  rw [Engine.exec_bind_still still, made]
  cases planned with
  | error failure => rfl
  | ok value =>
      dsimp only
      rw [same value rfl]
      rfl

theorem ofExcept_bind (first : Except Failure α) (next : α → Except Failure β) :
    ofExcept id (first >>= next) =
      ofExcept id first >>= fun value => ofExcept id (next value) := by
  cases first <;> rfl

end Action

namespace Engine

open Action

variable {engine : Engine}

def writeSingle (engine : Engine) (planned : Except Failure WritePlan)
    (attributes : WritePlan → Option Item × Option Item → Action (Option Item))
    (capacity : Option CapacityDetail) : Action WriteResponse := do
  let plan ← ofExcept id planned
  let images ← engine.writeAlone plan
  let shown ← attributes plan images
  return ⟨shown, ← consumed capacity plan.table.name⟩

def oldIfWanted (returnValues : Option ReturnValues) (_ : WritePlan)
    (images : Option Item × Option Item) : Action (Option Item) :=
  pure (images.1.filter fun _ => returnValues.getD .none == .allOld)

def partsIfWanted (returnValues : Option ReturnValues) (plan : WritePlan)
    (images : Option Item × Option Item) : Action (Option Item) :=
  updateAttributes (returnValues.getD .none) plan.updateOf plan.bindings images.1 images.2

theorem putItem_eq (request : PutItemRequest) :
    engine.putItem request = engine.writeSingle (engine.planOfPut request)
      (oldIfWanted request.returnValues) request.capacity := by
  rw [putItem, writeSingle, planOfPut, ofExcept_bind, bind_assoc]
  refine (engine.still_table _).bind_eq rfl fun table _ => ?_
  rw [ofExcept_bind, bind_assoc]
  refine (Still.require _ _).bind_eq rfl fun _ _ => ?_
  refine (engine.still_planPut _ _ _ _ _).bind_eq rfl fun plan planned => ?_
  obtain ⟨_, rfl, _⟩ := planPut_ok planned
  rfl

theorem deleteItem_eq (request : DeleteItemRequest) :
    engine.deleteItem request = engine.writeSingle (engine.planOfDelete request)
      (oldIfWanted request.returnValues) request.capacity := by
  rw [deleteItem, writeSingle, planOfDelete, ofExcept_bind, bind_assoc]
  refine (engine.still_table _).bind_eq rfl fun table _ => ?_
  rw [ofExcept_bind, bind_assoc]
  refine (Still.require _ _).bind_eq rfl fun _ _ => ?_
  refine (engine.still_planDelete _ _ _ _ _).bind_eq rfl fun plan planned => ?_
  obtain ⟨_, rfl, _⟩ := planDelete_ok planned
  rfl

theorem updateItem_eq (request : UpdateItemRequest) :
    engine.updateItem request = engine.writeSingle (engine.planOfUpdate request)
      (partsIfWanted request.returnValues) request.capacity := by
  rw [updateItem, writeSingle, planOfUpdate, ofExcept_bind, bind_assoc]
  refine (engine.still_table _).bind_eq rfl fun table _ => ?_
  refine (engine.still_planUpdate _ _ _ _ _ _).bind_eq rfl fun plan planned => ?_
  obtain ⟨_, rfl, _⟩ := planUpdate_ok planned
  rfl

theorem still_oldIfWanted (returnValues : Option ReturnValues) (plan : WritePlan)
    (images : Option Item × Option Item) : (oldIfWanted returnValues plan images).Still :=
  Still.pure _

theorem still_partsIfWanted (returnValues : Option ReturnValues) (plan : WritePlan)
    (images : Option Item × Option Item) : (partsIfWanted returnValues plan images).Still :=
  still_updateAttributes _ _ _ _ _

/-! The plans are sound. -/

variable (named : Named engine.tables) {plan : WritePlan}

include named

theorem planOfPut_sound {request : PutItemRequest} (ordered : (Request.putItem request).Ordered)
    (planned : engine.planOfPut request = .ok plan) : plan.Sound engine.tables := by
  obtain ⟨table, found, planned⟩ := bind_ok planned
  obtain ⟨_, _, planned⟩ := bind_ok planned
  exact planPut_sound planned (table_listed named found) ordered.1 ordered.2

theorem planOfDelete_sound {request : DeleteItemRequest}
    (ordered : (Request.deleteItem request).Ordered)
    (planned : engine.planOfDelete request = .ok plan) : plan.Sound engine.tables := by
  obtain ⟨table, found, planned⟩ := bind_ok planned
  obtain ⟨_, _, planned⟩ := bind_ok planned
  exact planDelete_sound planned (table_listed named found) ordered.1 ordered.2

theorem planOfUpdate_sound {request : UpdateItemRequest}
    (ordered : (Request.updateItem request).Ordered)
    (planned : engine.planOfUpdate request = .ok plan) : plan.Sound engine.tables := by
  obtain ⟨table, found, planned⟩ := bind_ok planned
  exact planUpdate_sound planned (table_listed named found) ordered.1 ordered.2

end Engine
end ItemStore
