import ItemStore.Proofs.Engine.PlainMap

/-!
What requests plan. A list of writes is planned in turn, one plan for each and no two for the same
item, and every plan is for the row of the item that is named in what was asked for.
-/

namespace ItemStore
namespace Engine

open Action

structure PlansWrite (engine : Engine) (asked : Table × BatchWrite) (write : PlannedWrite) :
    Prop where
  table : write.table = asked.1.name
  request : write.request = asked.2
  planned : (engine.planBatchWrite asked.1 asked.2).result = .ok write.plan

variable {engine : Engine} {plan : WritePlan}

theorem planBatchWrite_table {table : Table} {request : BatchWrite} {plan : WritePlan}
    (ok : (engine.planBatchWrite table request).result = .ok plan) : plan.table = table := by
  rw [planBatchWrite] at ok
  split at ok
  · exact (planPut_ok ok).2.1
  · exact (planDelete_ok ok).2.1
  · cases ok

/-- In a batch that is planned each write is, and no two are for the same item. -/
theorem plansWrite_of_ok {requests : List (Table × BatchWrite)}
    {planned writes : List PlannedWrite}
    (ok : (engine.planBatchWrites planned requests).result = .ok writes) :
    ∃ more, writes = planned ++ more ∧ List.Forall₂ engine.PlansWrite requests more ∧
      (more.map PlannedWrite.plan).Pairwise WritePlan.Apart ∧
      ∀ old ∈ planned, ∀ new ∈ more, old.plan.Apart new.plan := by
  induction requests generalizing planned with
  | nil =>
      cases ok
      exact ⟨[], (List.append_nil _).symm, .nil, .nil, fun _ _ _ none => nomatch none⟩
  | cons asked rest ih =>
      obtain ⟨plan, here, ok⟩ := (engine.still_planBatchWrite _ _).of_bind_ok ok
      obtain ⟨_, fresh, ok⟩ := (Still.require _ _).of_bind_ok ok
      obtain ⟨more, rfl, fits, apart, beyond⟩ := ih ok
      have before := apart_of_unrepeated (of_require_ok fresh)
      refine ⟨⟨asked.1.name, asked.2, plan⟩ :: more, List.append_assoc _ _ _,
        .cons ⟨rfl, rfl, here⟩ fits, ?_, ?_⟩
      · refine List.pairwise_cons.mpr ⟨List.forall_mem_map.mpr fun new member => ?_, apart⟩
        exact beyond _ (List.mem_append_right _ List.mem_cons_self) new member
      · intro old member new later
        rcases List.mem_cons.mp later with rfl | later
        · exact before _ (List.mem_map_of_mem member)
        · exact beyond old (List.mem_append_left _ member) new later

theorem planBatchWrites_apart {requests : List (Table × BatchWrite)} {writes : List PlannedWrite}
    (ok : (engine.planBatchWrites [] requests).result = .ok writes) :
    (writes.map PlannedWrite.plan).Pairwise WritePlan.Apart := by
  obtain ⟨_, rfl, _, apart, _⟩ := plansWrite_of_ok ok
  exact apart

/-! The rows of plans. -/

end Engine
end ItemStore
