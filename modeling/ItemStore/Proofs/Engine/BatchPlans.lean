import ItemStore.Proofs.Engine.Refinement
import Mathlib.Data.List.Perm.Basic

/-!
The plans of a batch. Every write asked for in a known table has one, no two are for the same item,
and that does not depend on which table is looked at first. What is handed back is listed under its
table.
-/

namespace ItemStore

def BatchWrite.target? (write : BatchWrite) : Option Item :=
  write.put <|> write.delete

def Table.SameKey (table : Table) (first second : BatchWrite) : Prop :=
  ∃ a b : Item, first.target? = some a ∧ second.target? = some b ∧ ∀ name ∈ table.keyNames,
    ∃ x y, a.get? name = some x ∧ b.get? name = some y ∧ x.equal y = true

namespace Engine

open Action

def Planned (engine : Engine) (write : PlannedWrite) : Prop :=
  ∃ table, engine.tables.get? write.table = some table ∧ write.plan.table.name = write.table ∧
    (engine.planBatchWrite table write.request).result = .ok write.plan

variable {engine : Engine}

theorem planBatchWrite_key {table : Table} {request : BatchWrite} {plan : WritePlan}
    (ok : (engine.planBatchWrite table request).result = .ok plan) :
    ∃ target, request.target? = some target ∧ table.rowKey target = .ok plan.key := by
  rw [planBatchWrite] at ok
  split at ok
  · rename_i item given _
    obtain ⟨prepared, rfl, put, _⟩ := planPut_ok ok
    exact ⟨item, by rw [BatchWrite.target?, given]; rfl, (prepared.put item put).1⟩
  · rename_i key missing given
    obtain ⟨prepared, rfl, _, _, rfl, _⟩ := planDelete_ok ok
    exact ⟨_, by rw [BatchWrite.target?, missing, given]; rfl, prepared.key⟩
  · cases ok

theorem unrepeated_iff {planned : List WritePlan} {plan : WritePlan} :
    (!repeats planned plan) = true ↔ ∀ earlier ∈ planned, earlier.Apart plan := by
  refine ⟨apart_of_unrepeated, fun apart => ?_⟩
  rw [Bool.not_eq_true', ← Bool.not_eq_true, repeats, List.any_eq_true]
  rintro ⟨earlier, member, same⟩
  rw [Bool.and_eq_true, beq_iff_eq, beq_iff_eq] at same
  exact apart earlier member same.1 same.2

theorem require_ok_iff {condition : Bool} {fault : RequestFault} :
    (require condition fault).result = .ok () ↔ condition = true := by
  refine ⟨of_require_ok, fun holds => ?_⟩
  rw [require, if_pos holds]
  rfl

theorem ok_of_plansWrite {requests : List (Table × BatchWrite)} {planned more : List PlannedWrite}
    (fits : List.Forall₂ engine.PlansWrite requests more)
    (apart : (more.map PlannedWrite.plan).Pairwise WritePlan.Apart)
    (beyond : ∀ old ∈ planned, ∀ new ∈ more, old.plan.Apart new.plan) :
    (engine.planBatchWrites planned requests).result = .ok (planned ++ more) := by
  induction fits generalizing planned with
  | nil =>
      rw [List.append_nil]
      rfl
  | @cons asked write rest more here _ ih =>
      obtain ⟨table, request⟩ := asked
      obtain ⟨name, given, plan⟩ := write
      obtain ⟨named, asked, here⟩ := here
      cases named
      cases asked
      obtain ⟨first, apart⟩ := List.pairwise_cons.mp apart
      have fresh : (!repeats (planned.map PlannedWrite.plan) plan) = true :=
        unrepeated_iff.mpr (List.forall_mem_map.mpr fun old member =>
          beyond old member _ List.mem_cons_self)
      rw [planBatchWrites, (engine.still_planBatchWrite _ _).result_bind, here]
      show (require _ _ >>= fun _ => _ : Action _).result = _
      rw [(Still.require _ _).result_bind, require_ok_iff.mpr fresh]
      have later := @ih (planned ++ [⟨table.name, request, plan⟩]) apart ?_
      · rw [List.append_assoc] at later
        exact later
      · intro old member new there
        rcases List.mem_append.mp member with earlier | last
        · exact beyond old earlier new (List.mem_cons_of_mem _ there)
        · rw [List.mem_singleton.mp last]
          exact first _ (List.mem_map_of_mem there)

theorem planBatchWrites_perm {requests order : List (Table × BatchWrite)}
    {writes : List PlannedWrite} (perm : order.Perm requests)
    (ok : (engine.planBatchWrites [] requests).result = .ok writes) :
    ∃ others, (engine.planBatchWrites [] order).result = .ok others ∧ others.Perm writes := by
  obtain ⟨_, rfl, fits, apart, _⟩ := plansWrite_of_ok ok
  obtain ⟨others, fits, reordered⟩ := List.perm_comp_forall₂ perm fits
  refine ⟨others, ok_of_plansWrite fits ?_ (fun _ none => nomatch none), reordered⟩
  exact ((reordered.map _).pairwise_iff WritePlan.Apart.symm).mpr apart

/-! Writes about one item. -/

theorem rowKey_of_sameKey {table : Table} {first second : BatchWrite}
    (same : table.SameKey first second) : ∃ a b, first.target? = some a ∧
      second.target? = some b ∧ table.rowKey a = table.rowKey b := by
  obtain ⟨a, b, given, alsoGiven, equal⟩ := same
  refine ⟨a, b, given, alsoGiven, Table.rowKey_of_parts fun name member => ?_⟩
  obtain ⟨x, y, found, alsoFound, equal⟩ := equal name member
  rw [Table.keyPart, Table.keyPart, found, alsoFound]
  exact KeyValue.ofNamed_of_equal name equal

theorem not_apart_of_sameKey {table : Table} {first second : BatchWrite}
    (same : table.SameKey first second) {plan other : WritePlan}
    (planned : (engine.planBatchWrite table first).result = .ok plan)
    (otherPlanned : (engine.planBatchWrite table second).result = .ok other) :
    ¬plan.Apart other := by
  obtain ⟨a, b, given, alsoGiven, keys⟩ := rowKey_of_sameKey same
  obtain ⟨target, asked, key⟩ := planBatchWrite_key planned
  obtain ⟨otherTarget, otherAsked, otherKey⟩ := planBatchWrite_key otherPlanned
  cases given.symm.trans asked
  cases alsoGiven.symm.trans otherAsked
  rw [keys, otherKey] at key
  intro apart
  refine apart ?_ (Except.ok.inj key).symm
  rw [planBatchWrite_table planned, planBatchWrite_table otherPlanned]

theorem not_sameKey_of_ok {requests : List (Table × BatchWrite)} {writes : List PlannedWrite}
    (ok : (engine.planBatchWrites [] requests).result = .ok writes) :
    requests.Pairwise fun first second =>
      first.1 = second.1 → ¬first.1.SameKey first.2 second.2 := by
  obtain ⟨more, same, fits, apart, beyond⟩ := plansWrite_of_ok ok
  clear ok same beyond
  induction fits with
  | nil => exact .nil
  | cons here fits ih =>
      obtain ⟨before, apart⟩ := List.pairwise_cons.mp apart
      refine List.pairwise_cons.mpr ⟨fun other member sameTable sameKey => ?_, ih apart⟩
      obtain ⟨write, listed, there⟩ := exists_of_mem_right fits.flip member
      have planned := there.planned
      rw [← sameTable] at planned
      exact not_apart_of_sameKey sameKey here.planned planned
        (before _ (List.mem_map_of_mem listed))

theorem planBatchWrites_failsAs {requests : List (Table × BatchWrite)}
    (each : ∀ asked ∈ requests, ∃ plan, (engine.planBatchWrite asked.1 asked.2).result = .ok plan)
    (planned : List PlannedWrite) :
    (engine.planBatchWrites planned requests).FailsAs (· = .request .repeatedKey) := by
  induction requests generalizing planned with
  | nil => exact FailsAs.pure _
  | cons asked rest ih =>
      obtain ⟨plan, here⟩ := each asked List.mem_cons_self
      refine FailsAs.bind ?_ fun plan => FailsAs.bind ?_ fun _ =>
        ih (fun other member => each other (List.mem_cons_of_mem _ member)) _
      · intro session failure after failed
        rw [engine.still_planBatchWrite, here] at failed
        cases failed
      · rw [require]
        split
        · exact FailsAs.pure _
        · exact FailsAs.throw rfl

/-! The writes of one table. -/

section Tables

variable {name : String} {table : Table} (named : Named engine.tables)

include named

theorem planned_of_plansWrite {request : BatchWriteRequest} {order : List (Table × List BatchWrite)}
    (perm : order.Perm (engine.knownTables request.tables)) {writes : List PlannedWrite}
    (fits : List.Forall₂ engine.PlansWrite (writesOf order) writes) :
    ∀ write ∈ writes, engine.Planned write := by
  intro write member
  obtain ⟨⟨table, request⟩, listed, here⟩ := exists_of_mem_right fits member
  obtain ⟨entry, visited, inside⟩ := List.mem_flatMap.mp listed
  obtain ⟨_, _, same⟩ := List.mem_map.mp inside
  cases same
  obtain ⟨found, _⟩ := mem_knownTables named (perm.mem_iff.mp visited)
  refine ⟨entry.1, ?_, ?_, ?_⟩
  · rw [here.table]
    exact found
  · rw [planBatchWrite_table here.planned, here.table]
  · rw [here.request]
    exact here.planned

theorem filter_knownTables {α : Type} (tables : Dict String α) (name : String) :
    (engine.knownTables tables).filter (fun entry => entry.1.name == name) =
      engine.knownTables (tables.filter fun entry => entry.1 == name) := by
  rw [knownTables, knownTables, List.filter_filterMap, List.filterMap_filter]
  refine List.filterMap_congr fun entry _ => ?_
  cases found : engine.tables.get? entry.1 with
  | none => simp
  | some table => simp [Option.filter_some, named _ _ found]

variable (listed : engine.tables.get? name = some table)

include listed

theorem filter_writesOf {request : BatchWriteRequest} (ascending : request.tables.Ascending)
    {order : List (Table × List BatchWrite)} (perm : order.Perm (engine.knownTables request.tables)) :
    (writesOf order).filter (fun asked => asked.1.name == name) =
      ((request.tables.get? name).getD []).map fun write => (table, write) := by
  have blocks : ∀ known : List (Table × List BatchWrite),
      (writesOf known).filter (fun asked => asked.1.name == name) =
        writesOf (known.filter fun entry => entry.1.name == name) := by
    intro known
    induction known with
    | nil => rfl
    | cons entry rest ih =>
        rw [writesOf, List.flatMap_cons, List.filter_append, List.filter_cons]
        refine (congrArg _ ih).trans ?_
        cases same : entry.1.name == name <;>
          simp [writesOf, List.filter_map, Function.comp_def, same]
  have here := perm.filter fun entry => entry.1.name == name
  rw [filter_knownTables named, Dict.filter_key ascending] at here
  rw [blocks]
  cases found : request.tables.get? name with
  | none =>
      rw [found] at here
      rw [here.eq_nil]
      rfl
  | some writes =>
      have alone : engine.knownTables [(name, writes)] = [(table, writes)] := by
        simp [knownTables, listed]
      rw [found] at here
      rw [List.perm_singleton.mp (here.trans (List.Perm.of_eq alone))]
      simp [writesOf]

theorem requests_of_plansWrite {request : BatchWriteRequest} {writes : List PlannedWrite}
    (ascending : request.tables.Ascending) {order : List (Table × List BatchWrite)}
    (perm : order.Perm (engine.knownTables request.tables))
    (fits : List.Forall₂ engine.PlansWrite (writesOf order) writes) :
    (writes.filter fun write => write.table == name).map PlannedWrite.request =
      (request.tables.get? name).getD [] := by
  have same : ∀ {asked : List (Table × BatchWrite)} {writes : List PlannedWrite},
      List.Forall₂ engine.PlansWrite asked writes →
      (writes.filter fun write => write.table == name).map PlannedWrite.request =
        (asked.filter fun asked => asked.1.name == name).map Prod.snd := by
    intro asked writes fits
    induction fits with
    | nil => rfl
    | cons here _ ih =>
        rw [List.filter_cons, List.filter_cons, here.table]
        split
        · rw [List.map_cons, List.map_cons, ih, here.request]
        · exact ih
  rw [same fits, filter_writesOf named listed ascending perm, List.map_map]
  exact List.map_id _

end Tables

/-! What is handed back. -/

theorem get?_unknownTables {α : Type} (tables : Dict String α) (name : String) :
    (engine.unknownTables tables).get? name =
      if engine.tables.contains name then none else tables.get? name := by
  rw [unknownTables, Dict.get?_filter fun name => !engine.tables.contains name]
  cases engine.tables.contains name <;> rfl

theorem get?_handBack (writes : List PlannedWrite) (name : String)
    (listed : Dict String (List BatchWrite)) :
    ((handBack listed writes).get? name).getD [] = (listed.get? name).getD [] ++
      (writes.filter fun write => write.table == name).map PlannedWrite.request := by
  induction writes generalizing listed with
  | nil => exact (List.append_nil _).symm
  | cons write rest ih =>
      rw [handBack, List.foldl_cons]
      refine (ih _).trans ?_
      by_cases same : write.table = name
      · subst same
        rw [Dict.get?_insert_self, List.filter_cons, if_pos (beq_self_eq_true _), List.map_cons]
        exact List.append_assoc _ _ _
      · have other : ¬(write.table == name) = true := fun equal => same (eq_of_beq equal)
        rw [Dict.get?_insert_of_ne (Ne.symm same), List.filter_cons, if_neg other]

theorem get?_handBack_of_ne {writes : List PlannedWrite} {name : String}
    (others : ∀ write ∈ writes, write.table ≠ name) (listed : Dict String (List BatchWrite)) :
    (handBack listed writes).get? name = listed.get? name := by
  induction writes generalizing listed with
  | nil => rfl
  | cons write rest ih =>
      rw [handBack, List.foldl_cons]
      refine (ih (fun other member => others other (List.mem_cons_of_mem _ member)) _).trans ?_
      exact Dict.get?_insert_of_ne (others write List.mem_cons_self).symm _ _

end Engine
end ItemStore
