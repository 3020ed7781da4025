import ItemStore.Proofs.Expression.Updates
import ItemStore.Proofs.Value.EditSequences

/-!
The actions of an update at their places, and the edits that they come to. Actions that leave each
other's places alone make the edits that each of them comes to on the item as it was.
-/

namespace ItemStore

namespace Location

def Keyed (location : Location) : Prop :=
  ∀ segment ∈ location.within, ∃ name, segment = .key name

theorem Keyed.way {location : Location} (keyed : location.Keyed) :
    ∀ segment ∈ location.way, ∃ name, segment = .key name := by
  intro segment member
  rcases List.mem_cons.mp member with rfl | below
  · exact ⟨_, rfl⟩
  · exact keyed segment below

theorem Keyed.of_fields {bindings : Bindings} {path : Path} {location : Location}
    (fields : ∀ step ∈ path.steps, ∃ name, step = .field name)
    (located : bindings.location path = .ok location) : location.Keyed := by
  obtain ⟨top, _, located⟩ := bind_ok located
  obtain ⟨within, stepped, located⟩ := bind_ok located
  cases located
  intro segment below
  obtain ⟨step, written, named⟩ := mapM_source stepped segment below
  obtain ⟨name, rfl⟩ := fields step written
  obtain ⟨replaced, _, rfl⟩ := map_ok named
  exact ⟨replaced, rfl⟩

theorem Keyed.isAttribute {location : Location} (keyed : location.Keyed) :
    location.IsAttribute := by
  have last := List.getLast?_eq_some_getLast location.way_ne_nil
  obtain ⟨name, same⟩ := keyed.way _ (List.mem_of_getLast? last)
  exact ⟨name, last.trans (congrArg some same)⟩

theorem Keyed.index_notMem {location : Location} (keyed : location.Keyed) {position : Nat} :
    .index position ∉ location.way := by
  intro member
  obtain ⟨_, same⟩ := keyed.way _ member
  cases same

end Location

inductive UpdateTask where
  | set (target : Location) (value : SetValue)
  | remove (target : Location)
  | add (target : Location) (placeholder : String)
  | delete (target : Location) (placeholder : String)

namespace UpdateTask

def target : UpdateTask → Location
  | .set target _ | .remove target | .add target _ | .delete target _ => target

def edit (bindings : Bindings) (before item : Item) :
    UpdateTask → Except ExpressionError (Option Edit)
  | .set target value => do
      let value ← value.evaluate bindings before
      return some ⟨target, some value⟩
  | .remove target => return if (item.at? target).isSome then some ⟨target, none⟩ else none
  | .add target placeholder => do
      let operand ← bindings.value placeholder
      let value ← Update.added (item.at? target) operand
      return some ⟨target, some value⟩
  | .delete target placeholder => do
      let operand ← bindings.value placeholder
      if !operand.isSet then .error (.incorrectOperand "DELETE" operand.descriptor)
      else
        match item.at? target with
        | none => return none
        | some current =>
            match current.difference? operand with
            | none => .error (.incorrectOperand "DELETE" current.descriptor)
            | some rest => return some ⟨target, if rest.isEmptySet then none else some rest⟩

def carryOut (bindings : Bindings) (before item : Item) (task : UpdateTask) :
    Except ExpressionError Item := do
  match ← task.edit bindings before item with
  | none => return item
  | some edit => edit.carryOut item

def disturbs (bindings : Bindings) (item : Item) (task : UpdateTask) (place : Location) : Bool :=
  match task.edit bindings item item with
  | .ok (some edit) => edit.disturbs place (.map item)
  | _ => false

def isSet : UpdateTask → Bool
  | .set _ _ => true
  | _ => false

def isRemove : UpdateTask → Bool
  | .remove _ => true
  | _ => false

def sameClause (first second : UpdateTask) : Bool :=
  first.isSet && second.isSet || first.isRemove && second.isRemove

variable {bindings : Bindings} {before item after : Item} {task : UpdateTask} {made : Edit}

theorem edit_spec (ok : task.edit bindings before item = .ok (some made)) :
    made.target = task.target ∧ (made.new = none → (item.at? task.target).isSome = true) := by
  cases task with
  | set target value =>
      obtain ⟨_, _, ok⟩ := bind_ok ok
      cases ok
      exact ⟨rfl, fun dropped => by cases dropped⟩
  | remove target =>
      rw [edit] at ok
      split at ok
      · rename_i stands
        cases ok
        exact ⟨rfl, fun _ => stands⟩
      · cases ok
  | add target placeholder =>
      obtain ⟨_, _, ok⟩ := bind_ok ok
      obtain ⟨_, _, ok⟩ := bind_ok ok
      cases ok
      exact ⟨rfl, fun dropped => by cases dropped⟩
  | delete target placeholder =>
      obtain ⟨_, _, ok⟩ := bind_ok ok
      split at ok
      · cases ok
      · split at ok
        · cases ok
        · rename_i current here
          split at ok
          · cases ok
          · cases ok
            exact ⟨rfl, fun _ => by simp [UpdateTask.target, here]⟩

theorem disturbs_of_keyed {place : Location} (keyed : task.target.Keyed) :
    task.disturbs bindings item place = false := by
  rw [disturbs]
  split
  · rename_i made edited
    rw [Edit.disturbs, (edit_spec edited).1]
    refine Bool.eq_false_iff.mpr fun disturbed => ?_
    obtain ⟨⟨position, member⟩, _⟩ := AttributeValue.indexes_of_disturbs disturbed
    exact keyed.index_notMem member
  · rfl

theorem ordered_edit (ordered : before.Ordered) (values : Item.Ordered bindings.values)
    (ok : task.edit bindings before item = .ok (some made)) :
    AttributeValue.OrderedIf made.new := by
  cases task with
  | set target value =>
      obtain ⟨result, evaluated, ok⟩ := bind_ok ok
      cases ok
      rintro _ ⟨⟩
      exact SetValue.ordered_evaluate ordered values evaluated
  | remove target =>
      rw [edit] at ok
      split at ok <;> cases ok
      rintro _ ⟨⟩
  | add target placeholder =>
      obtain ⟨operand, found, ok⟩ := bind_ok ok
      obtain ⟨value, sum, ok⟩ := bind_ok ok
      cases ok
      rintro _ ⟨⟩
      exact Update.ordered_added (Update.value_ordered values found) sum
  | delete target placeholder =>
      obtain ⟨_, _, ok⟩ := bind_ok ok
      split at ok
      · cases ok
      · split at ok
        · cases ok
        · split at ok
          · cases ok
          · rename_i rest remaining
            cases ok
            intro found same
            dsimp only at same
            split at same <;> cases same
            exact AttributeValue.ordered_difference? remaining

theorem edit_congr (same : after.at? task.target = item.at? task.target) :
    task.edit bindings before after = task.edit bindings before item := by
  cases task <;> simp only [edit, target] at same ⊢ <;> rw [same]

theorem carryOut_of_edit (ok : task.carryOut bindings before item = .ok after) :
    (task.edit bindings before item = .ok none ∧ after = item) ∨
      ∃ made, task.edit bindings before item = .ok (some made) ∧
        made.make? (.map item) = some (.map after) := by
  obtain ⟨made, edited, ok⟩ := bind_ok ok
  cases made with
  | none =>
      cases ok
      exact Or.inl ⟨edited, rfl⟩
  | some made =>
      obtain ⟨place, stands⟩ := edit_spec edited
      exact Or.inr ⟨made, edited, (Edit.carryOut_ok_iff (place ▸ stands)).mp ok⟩

theorem alike_of_carryOut {place : Location} (apart : Apart task.target.way place.way)
    (undisturbed : ∀ made, task.edit bindings before item = .ok (some made) →
      made.disturbs place (.map item) = false)
    (ok : task.carryOut bindings before item = .ok after) :
    AttributeValue.Alike place.way (.map item) (.map after) := by
  rcases carryOut_of_edit ok with ⟨_, rfl⟩ | ⟨made, edited, carried⟩
  · exact AttributeValue.Alike.refl _ _
  · have clear := undisturbed made edited
    rw [← (edit_spec edited).1] at apart
    exact AttributeValue.alike_of_edit? apart clear carried

/-- Actions that leave each other's places alone make the edits that each comes to on the item as it
was. -/
theorem makeAll?_of_carryOut {tasks : List UpdateTask} {start final : Item}
    (alike : ∀ task ∈ tasks, AttributeValue.Alike task.target.way (.map before) (.map start))
    (apart : tasks.Pairwise fun a b => Apart a.target.way b.target.way)
    (steady : tasks.Pairwise fun a b => a.disturbs bindings before b.target = false)
    (ok : tasks.foldlM (carryOut bindings before) start = .ok final) :
    ∃ edits, tasks.mapM (edit bindings before before) = .ok edits ∧
      Edit.makeAll? (edits.filterMap id) (.map start) = some (.map final) := by
  -- Every place yet to come is as in the item before the update, so that what the next action
  -- finds there, and which places it disturbs, has not changed either.
  induction tasks generalizing start with
  | nil =>
      cases ok
      exact ⟨[], rfl, rfl⟩
  | cons task rest ih =>
      rw [List.foldlM_cons] at ok
      obtain ⟨middle, carried, ok⟩ := bind_ok ok
      obtain ⟨apartHead, apartRest⟩ := List.pairwise_cons.mp apart
      obtain ⟨steadyHead, steadyRest⟩ := List.pairwise_cons.mp steady
      have here := alike task List.mem_cons_self
      have same : task.edit bindings before start = task.edit bindings before before :=
        edit_congr (AttributeValue.at?_of_alike here)
      have kept : ∀ other ∈ rest,
          AttributeValue.Alike other.target.way (.map before) (.map middle) := by
        intro other member
        have there := alike other (List.mem_cons_of_mem _ member)
        refine there.trans (alike_of_carryOut (apartHead other member) ?_ carried)
        intro made edited
        have clear := steadyHead other member
        rw [same] at edited
        simp only [disturbs, edited, Edit.disturbs, (edit_spec edited).1] at clear ⊢
        rw [AttributeValue.disturbs_of_alike here there]
        exact clear
      obtain ⟨edits, planned, made⟩ := ih kept apartRest steadyRest ok
      rcases carryOut_of_edit carried with ⟨edited, rfl⟩ | ⟨first, edited, firstMade⟩
      · refine ⟨none :: edits, ?_, made⟩
        rw [List.mapM_cons, ← same, edited, planned]
        rfl
      · refine ⟨some first :: edits, ?_, ?_⟩
        · rw [List.mapM_cons, ← same, edited, planned]
          rfl
        · change Edit.makeAll? (first :: edits.filterMap id) _ = _
          rw [Edit.makeAll?_cons, firstMade]
          exact made

theorem clear_of_steady {tasks : List UpdateTask} {start : Item} {edits : List (Option Edit)}
    (alike : ∀ task ∈ tasks, AttributeValue.Alike task.target.way (.map before) (.map start))
    (apart : tasks.Pairwise fun a b => Apart a.target.way b.target.way)
    (steady : tasks.Pairwise fun a b => a.disturbs bindings before b.target = false)
    (planned : tasks.mapM (edit bindings before before) = .ok edits) :
    (edits.filterMap id).Pairwise (Edit.Clear (.map start)) := by
  rw [List.pairwise_filterMap]
  refine mapM_pairwise ((apart.and steady).imp_of_mem fun {a b} memberA memberB both =>
    And.intro both (And.intro (alike a memberA) (alike b memberB))) ?_ planned
  rintro a b _ _ ⟨⟨separate, clear⟩, here, there⟩ plannedA plannedB first rfl second rfl
  simp only [disturbs, plannedA, Edit.disturbs] at clear
  refine ⟨?_, ?_⟩
  · rw [(edit_spec plannedA).1, (edit_spec plannedB).1]
    exact separate
  · rw [Edit.disturbs, (edit_spec plannedA).1, (edit_spec plannedB).1] at *
    rw [AttributeValue.disturbs_of_alike here there]
    exact clear

theorem edit_of_isSet (sets : task.isSet = true)
    (ok : task.carryOut bindings before item = .ok after) :
    ∃ value, task.edit bindings before before = .ok (some ⟨task.target, some value⟩) ∧
      Edit.make? ⟨task.target, some value⟩ (.map item) = some (.map after) := by
  cases task with
  | set target value =>
      obtain ⟨made, edited, ok⟩ := bind_ok ok
      obtain ⟨result, evaluated, made_eq⟩ := bind_ok edited
      cases made_eq
      exact ⟨result, edited, Item.place_ok_iff.mp ok⟩
  | _ => cases sets

theorem makeAll?_of_sets {tasks : List UpdateTask} {start final : Item}
    (sets : ∀ task ∈ tasks, task.isSet = true)
    (ok : tasks.foldlM (carryOut bindings before) start = .ok final) :
    ∃ edits, tasks.mapM (edit bindings before before) = .ok (edits.map some) ∧
      (∀ edit ∈ edits, edit.new.isSome = true) ∧
      Edit.makeAll? edits (.map start) = some (.map final) := by
  induction tasks generalizing start with
  | nil =>
      cases ok
      exact ⟨[], rfl, by simp, rfl⟩
  | cons task rest ih =>
      rw [List.foldlM_cons] at ok
      obtain ⟨middle, carried, ok⟩ := bind_ok ok
      obtain ⟨value, edited, made⟩ := edit_of_isSet (sets task List.mem_cons_self) carried
      obtain ⟨edits, planned, written, others⟩ :=
        ih (fun other member => sets other (List.mem_cons_of_mem _ member)) ok
      refine ⟨⟨task.target, some value⟩ :: edits, ?_, ?_, ?_⟩
      · rw [List.mapM_cons, edited, planned]
        rfl
      · intro edit member
        rcases List.mem_cons.mp member with rfl | later
        · rfl
        · exact written edit later
      · rw [Edit.makeAll?_cons, made]
        exact others

/-- Values that are set leave a place alone that none of them disturbs on the item as it was,
although one that goes to the end of a list moves where the next one goes. -/
theorem alike_of_sets {tasks : List UpdateTask} {start final : Item} {place : Location}
    (sets : ∀ task ∈ tasks, task.isSet = true)
    (apart : tasks.Pairwise fun a b => Apart a.target.way b.target.way)
    (away : ∀ task ∈ tasks, Apart task.target.way place.way)
    (steady : ∀ task ∈ tasks, task.disturbs bindings before place = false)
    (extended : ∀ task ∈ tasks,
      AttributeValue.Extends task.target.way (.map before) (.map start))
    (alike : AttributeValue.Alike place.way (.map before) (.map start))
    (ok : tasks.foldlM (carryOut bindings before) start = .ok final) :
    AttributeValue.Alike place.way (.map before) (.map final) := by
  -- The ways of the values yet to be set need not be as before, only to have lost nothing: then a
  -- value that went to no end of a list still does not.
  induction tasks generalizing start with
  | nil =>
      cases ok
      exact alike
  | cons task rest ih =>
      rw [List.foldlM_cons] at ok
      obtain ⟨middle, carried, ok⟩ := bind_ok ok
      obtain ⟨value, edited, made⟩ := edit_of_isSet (sets task List.mem_cons_self) carried
      obtain ⟨apartHead, apartRest⟩ := List.pairwise_cons.mp apart
      have clear := steady task List.mem_cons_self
      simp only [disturbs, edited] at clear
      have stillClear := AttributeValue.disturbs_of_extends (extended task List.mem_cons_self)
        alike clear
      have moved := AttributeValue.alike_of_edit? (away task List.mem_cons_self)
        (by exact stillClear) made
      refine ih (fun other member => sets other (List.mem_cons_of_mem _ member)) apartRest
        (fun other member => away other (List.mem_cons_of_mem _ member))
        (fun other member => steady other (List.mem_cons_of_mem _ member)) ?_
        (alike.trans moved) ok
      intro other member
      exact (extended other (List.mem_cons_of_mem _ member)).trans
        (AttributeValue.extends_of_edit? (apartHead other member) made)

theorem carryOut_remove (ordered : item.Ordered) (target : Location) :
    (remove target).carryOut bindings before item = .ok (item.takeOut target) := by
  cases here : item.at? target with
  | none =>
      simp [carryOut, edit, here, Item.takeOut_of_at?_eq_none ordered here, bind, Except.bind,
        pure, Except.pure]
  | some found => simp [carryOut, edit, here, bind, Except.bind, pure, Except.pure, Edit.carryOut]

theorem carryOut_removes (ordered : item.Ordered) (targets : List Location) :
    (targets.map remove).foldlM (carryOut bindings before) item =
      .ok (targets.foldl Item.takeOut item) := by
  induction targets generalizing item with
  | nil => rfl
  | cons target rest ih =>
      rw [List.map_cons, List.foldlM_cons, carryOut_remove ordered]
      exact ih (Item.ordered_takeOut ordered target)

theorem disturbs_remove {a b : Location} (inTurn : (compare b.way a.way).isLE = true) :
    (remove a).disturbs bindings item b = false := by
  cases stands : (item.at? a).isSome with
  | true =>
      simp only [disturbs, edit, stands, if_true, pure, Except.pure]
      exact AttributeValue.disturbs_of_isLE stands inTurn
  | false => simp [disturbs, edit, stands, pure, Except.pure]

theorem mapM_edit_remove (targets : List Location) :
    ∃ edits, (targets.map remove).mapM (edit bindings before item) = .ok edits ∧
      edits.filterMap id =
        (targets.filter fun target => (item.at? target).isSome).map Edit.drop := by
  induction targets with
  | nil => exact ⟨[], rfl, rfl⟩
  | cons target rest ih =>
      obtain ⟨edits, planned, same⟩ := ih
      rw [List.map_cons, List.mapM_cons, planned, edit]
      cases stands : (item.at? target).isSome with
      | true =>
          refine ⟨some (Edit.drop target) :: edits, rfl, ?_⟩
          rw [List.filter_cons, if_pos stands, List.map_cons, ← same]
          rfl
      | false =>
          refine ⟨none :: edits, rfl, ?_⟩
          rw [List.filter_cons, if_neg (Bool.eq_false_iff.mp stands), ← same]
          rfl

end UpdateTask

end ItemStore
