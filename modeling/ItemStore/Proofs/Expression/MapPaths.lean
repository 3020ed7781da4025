import ItemStore.Proofs.Expression.Simultaneous

/-!
What an update does at the places that are reached by map keys alone. Nothing moves such a place, so
each action has there the effect that it has on the item as it was, and every such place that meets
no target keeps its value.
-/

namespace ItemStore

namespace UpdateTask

variable {bindings : Bindings} {before start item after final : Item} {task : UpdateTask}

theorem alike_of_carryOuts {tasks : List UpdateTask} {place : Location} (keyed : place.Keyed)
    (away : ∀ task ∈ tasks, Apart task.target.way place.way)
    (ok : tasks.foldlM (carryOut bindings before) start = .ok final) :
    AttributeValue.Alike place.way (.map start) (.map final) := by
  refine @foldlM_invariant _ _ _ _ (fun after => AttributeValue.Alike place.way (.map start)
    (.map after)) _ (fun task member middle next alike carried => ?_) _ _
    (AttributeValue.Alike.refl _ _) ok
  refine alike.trans (alike_of_carryOut (away task member) (fun made _ => ?_) carried)
  refine Bool.eq_false_iff.mpr fun disturbed => ?_
  obtain ⟨_, position, member⟩ := AttributeValue.indexes_of_disturbs disturbed
  exact keyed.index_notMem member

theorem at?_of_carryOut (keyed : task.target.Keyed)
    (ok : task.carryOut bindings before item = .ok after) :
    ∃ made, task.edit bindings before item = .ok made ∧
      after.at? task.target = made.bind Edit.new := by
  rcases carryOut_of_edit ok with ⟨edited, rfl⟩ | ⟨made, edited, carried⟩
  · refine ⟨none, edited, ?_⟩
    cases task with
    | set target value =>
        obtain ⟨_, _, made⟩ := bind_ok edited
        cases made
    | remove target =>
        rw [edit] at edited
        split at edited <;> cases edited
        rename_i missing
        simpa [UpdateTask.target] using missing
    | add target placeholder =>
        obtain ⟨_, _, made⟩ := bind_ok edited
        obtain ⟨_, _, made⟩ := bind_ok made
        cases made
    | delete target placeholder =>
        obtain ⟨_, _, made⟩ := bind_ok edited
        split at made
        · cases made
        · split at made
          · assumption
          · split at made <;> cases made
  · refine ⟨some made, edited, ?_⟩
    rw [Edit.make?, (edit_spec edited).1] at carried
    exact AttributeValue.at?_of_edit? (Or.inl keyed.isAttribute) carried

/-- Among actions whose targets do not meet, one at a place reached by map keys has the effect that
it has on the item as it was. -/
theorem at?_of_carryOuts {tasks : List UpdateTask}
    (apart : tasks.Pairwise fun a b => Apart a.target.way b.target.way)
    (ok : tasks.foldlM (carryOut bindings item) item = .ok final) (member : task ∈ tasks)
    (keyed : task.target.Keyed) :
    ∃ made, task.edit bindings item item = .ok made ∧
      final.at? task.target = made.bind Edit.new := by
  -- What comes before the action leaves its place as it was, and what comes after it as it then is.
  obtain ⟨earlier, later, rfl⟩ := List.append_of_mem member
  obtain ⟨_, apartLater, between⟩ := List.pairwise_append.mp apart
  rw [List.foldlM_append] at ok
  obtain ⟨middle, earlierOk, ok⟩ := bind_ok ok
  rw [List.foldlM_cons] at ok
  obtain ⟨next, carried, laterOk⟩ := bind_ok ok
  have found := alike_of_carryOuts keyed
    (fun other listed => between other listed task List.mem_cons_self) earlierOk
  have kept := alike_of_carryOuts keyed
    (fun other listed => ((List.pairwise_cons.mp apartLater).1 other listed).symm) laterOk
  obtain ⟨made, edited, left⟩ := at?_of_carryOut keyed carried
  rw [edit_congr (AttributeValue.at?_of_alike found)] at edited
  exact ⟨made, edited, (AttributeValue.at?_of_alike kept).trans left⟩

end UpdateTask

namespace Update

/-- What `DELETE` leaves of the value at its place: the members that the operand does not have, and
nothing if there are none. -/
inductive Deletes : Option AttributeValue → AttributeValue → Option AttributeValue → Prop
  | absent {operand} : operand.isSet = true → Deletes none operand none
  | emptied {current operand rest} : current.difference? operand = some rest →
      rest.isEmptySet = true → Deletes (some current) operand none
  | kept {current operand rest} : current.difference? operand = some rest →
      rest.isEmptySet = false → Deletes (some current) operand (some rest)

theorem deletes_of_edit {bindings : Bindings} {before item : Item} {target : Location}
    {placeholder : String} {operand : AttributeValue} {made : Option Edit}
    (given : bindings.value placeholder = .ok operand)
    (ok : (UpdateTask.delete target placeholder).edit bindings before item = .ok made) :
    Deletes (item.at? target) operand (made.bind Edit.new) := by
  obtain ⟨_, again, ok⟩ := bind_ok ok
  cases given.symm.trans again
  split at ok
  · cases ok
  · rename_i sets
    have isSet : operand.isSet = true := by simpa using sets
    split at ok
    · rename_i missing
      cases ok
      rw [missing]
      exact .absent isSet
    · rename_i current here
      rw [here]
      split at ok
      · cases ok
      · rename_i rest remaining
        cases ok
        cases empty : rest.isEmptySet with
        | true => exact .emptied remaining empty
        | false => exact .kept remaining empty

/-- What an update does at places reached by map keys, told from the item as it was: the effect of
each action at its own place, and no effect at a place that meets no target. -/
structure Effect (update : Update) (bindings : Bindings) (names : List String)
    (item new : Item) : Prop where
  set : ∀ action ∈ update.set, ∃ location, bindings.location action.1 = .ok location ∧
    (location.Keyed → ∃ value, action.2.evaluate bindings item = .ok value ∧
      new.at? location = some value)
  remove : ∀ path ∈ update.remove, ∃ location, bindings.location path = .ok location ∧
    (location.Keyed → new.at? location = none)
  add : ∀ action ∈ update.add, ∃ location, bindings.location action.1 = .ok location ∧
    (location.Keyed → ∃ operand total, bindings.value action.2 = .ok operand ∧
      Adds (item.at? location) operand total ∧ new.at? location = some total)
  delete : ∀ action ∈ update.delete, ∃ location, bindings.location action.1 = .ok location ∧
    (location.Keyed → ∃ operand, bindings.value action.2 = .ok operand ∧
      Deletes (item.at? location) operand (new.at? location))
  frame : ∀ location : Location, location.Keyed →
    (∀ path ∈ update.targets, ∀ target, bindings.location path = .ok target →
      Apart target.way location.way) → new.at? location = item.at? location
  keys : ∀ name ∈ names, new.get? name = item.get? name

variable {update : Update} {bindings : Bindings} {names : List String} {item new : Item}

namespace Placed

variable (placed : update.Placed bindings)

def carriedOut : List UpdateTask :=
  placed.set ++ placed.inTurn

theorem carriedOut_perm : placed.carriedOut.Perm
    (placed.set ++ (placed.remove.map .remove ++ (placed.add ++ placed.delete))) :=
  placed.inTurn_perm.append_left _

theorem apart_carriedOut (valid : update.validate bindings names = .ok ()) :
    placed.carriedOut.Pairwise fun a b => Apart a.target.way b.target.way :=
  (placed.carriedOut_perm.pairwise_iff Apart.symm).mpr (apart_of_validate valid placed.tasks_eq)

theorem carriedOut_ok (ordered : item.Ordered) (values : Item.Ordered bindings.values)
    (ok : update.apply bindings item = .ok new) :
    placed.carriedOut.foldlM (UpdateTask.carryOut bindings item) item = .ok new := by
  obtain ⟨afterSet, _, setsOk, restOk⟩ := placed.carried ordered values ok
  rw [carriedOut, List.foldlM_append, setsOk]
  exact restOk

theorem target_mem {task : UpdateTask} (member : task ∈ placed.carriedOut) :
    ∃ path ∈ update.targets, bindings.location path = .ok task.target :=
  mapM_source (mapM_targets placed.tasks_eq) _
    (List.mem_map_of_mem (placed.carriedOut_perm.subset member))

theorem mem_carriedOut {task : UpdateTask} : task ∈ placed.carriedOut ↔ task ∈ placed.set ∨
    (∃ location ∈ placed.remove, .remove location = task) ∨ task ∈ placed.add ∨
      task ∈ placed.delete := by
  rw [placed.carriedOut_perm.mem_iff]
  simp only [List.mem_append, List.mem_map]

end Placed

theorem task_of_action {α : Type} {path : α → Path} {task : α → Location → UpdateTask}
    {actions : List α} {tasks : List UpdateTask} {action : α}
    (placed : actions.mapM (fun action => (bindings.location (path action)).map (task action)) =
      .ok tasks) (member : action ∈ actions) :
    ∃ location, bindings.location (path action) = .ok location ∧ task action location ∈ tasks := by
  obtain ⟨made, listed, same⟩ := mapM_reaches placed action member
  obtain ⟨location, located, rfl⟩ := map_ok same
  exact ⟨location, located, listed⟩

/-- An accepted update that succeeds has at places reached by map keys the effect of its actions on
the item as it was, and changes nothing at any other such place. -/
theorem apply_effect (ordered : item.Ordered) (values : Item.Ordered bindings.values)
    (valid : update.validate bindings names = .ok ()) (ok : update.apply bindings item = .ok new) :
    update.Effect bindings names item new := by
  obtain ⟨placed⟩ := Placed.exists_of_validate valid
  have apart := placed.apart_carriedOut valid
  have carried := placed.carriedOut_ok ordered values ok
  have left : ∀ {task : UpdateTask}, task ∈ placed.carriedOut → task.target.Keyed →
      ∃ made, task.edit bindings item item = .ok made ∧
        new.at? task.target = made.bind Edit.new :=
    fun member keyed => UpdateTask.at?_of_carryOuts apart carried member keyed
  constructor
  case set =>
    intro action member
    obtain ⟨location, located, listed⟩ := task_of_action placed.setOk member
    refine ⟨location, located, fun keyed => ?_⟩
    obtain ⟨made, edited, found⟩ := left (placed.mem_carriedOut.mpr (Or.inl listed)) keyed
    obtain ⟨value, evaluated, edited⟩ := bind_ok edited
    cases edited
    exact ⟨value, evaluated, found⟩
  case remove =>
    intro path member
    obtain ⟨location, listed, located⟩ := mapM_reaches placed.removeOk path member
    refine ⟨location, located, fun keyed => ?_⟩
    obtain ⟨made, edited, found⟩ :=
      left (placed.mem_carriedOut.mpr (Or.inr (Or.inl ⟨location, listed, rfl⟩))) keyed
    rw [UpdateTask.edit] at edited
    split at edited <;> cases edited <;> exact found
  case add =>
    intro action member
    obtain ⟨location, located, listed⟩ := task_of_action placed.addOk member
    refine ⟨location, located, fun keyed => ?_⟩
    obtain ⟨made, edited, found⟩ :=
      left (placed.mem_carriedOut.mpr (Or.inr (Or.inr (Or.inl listed)))) keyed
    obtain ⟨operand, given, edited⟩ := bind_ok edited
    obtain ⟨total, sum, edited⟩ := bind_ok edited
    cases edited
    exact ⟨operand, total, given, adds_of_added sum, found⟩
  case delete =>
    intro action member
    obtain ⟨location, located, listed⟩ := task_of_action placed.deleteOk member
    refine ⟨location, located, fun keyed => ?_⟩
    obtain ⟨made, edited, found⟩ :=
      left (placed.mem_carriedOut.mpr (Or.inr (Or.inr (Or.inr listed)))) keyed
    obtain ⟨operand, given, _⟩ := bind_ok edited
    exact ⟨operand, given, found ▸ deletes_of_edit given edited⟩
  case frame =>
    intro location keyed away
    refine AttributeValue.at?_of_alike (UpdateTask.alike_of_carryOuts keyed ?_ carried)
    intro task member
    obtain ⟨path, listed, located⟩ := placed.target_mem member
    exact away path listed _ located
  case keys =>
    exact fun name member => get?_apply_of_untargeted (untargeted_of_validate valid member) ok

theorem apply_effect_beside_list :
    let update : Update := ⟨[(⟨.placeholder "#c", []⟩, .operand (.path ⟨.literal "b", []⟩)),
        (⟨.literal "m", [.field (.placeholder "#c")]⟩,
          .operand (.path ⟨.literal "l", [.index 1]⟩))],
      [⟨.literal "m", [.field (.literal "y")]⟩], [(⟨.literal "b", []⟩, ":one")],
      [(⟨.literal "l", [.index 0]⟩, ":s"), (⟨.literal "s", []⟩, ":s")]⟩
    let bindings : Bindings :=
      ⟨[("#c", "count")], [(":one", .number "1"), (":s", .stringSet ["c"])]⟩
    let item : Item := [("b", .number "2"), ("l", .list [.stringSet ["c"], .string "z"]),
      ("m", .map [("y", .string "q"), ("z", .string "r")]), ("pk", .string "k"),
      ("s", .stringSet ["c", "d"])]
    let new : Item := [("b", .number "3"), ("count", .number "2"), ("l", .list [.string "z"]),
      ("m", .map [("count", .string "z"), ("z", .string "r")]), ("pk", .string "k"),
      ("s", .stringSet ["d"])]
    item.Ordered ∧ Item.Ordered bindings.values ∧ update.validate bindings ["pk"] = .ok () ∧
      update.apply bindings item = .ok new ∧ update.Effect bindings ["pk"] item new := by
  intro update bindings item new
  have ordered : item.Ordered := by decide
  have values : Item.Ordered bindings.values := by decide
  have valid : update.validate bindings ["pk"] = .ok () := rfl
  let afterSet : Item := [("b", .number "2"), ("count", .number "2"),
    ("l", .list [.stringSet ["c"], .string "z"]),
    ("m", .map [("count", .string "z"), ("y", .string "q"), ("z", .string "r")]),
    ("pk", .string "k"), ("s", .stringSet ["c", "d"])]
  let afterAdd : Item := [("b", .number "3"), ("count", .number "2"),
    ("l", .list [.stringSet ["c"], .string "z"]),
    ("m", .map [("count", .string "z"), ("z", .string "r")]), ("pk", .string "k"),
    ("s", .stringSet ["c", "d"])]
  have sets : update.set.foldlM (applySet bindings item) item = .ok afterSet := rfl
  have removed := applyRemovals_singleton afterSet ⟨"m", [.key "y"]⟩
  have sum : Number.addTexts "2" "1" = .ok "3" := ok_of_toOption (by decide +kernel)
  have total : added (some (.number "2")) (.number "1") = .ok (.number "3") := by
    rw [added, sum]
  have adds : update.add.foldlM (applyAdd bindings) (afterSet.takeOut ⟨"m", [.key "y"]⟩) =
      .ok afterAdd := by
    change Except.bind (Except.bind (added (some (.number "2")) (.number "1")) _) _ = _
    rw [total]
    rfl
  have deletes : update.delete.foldlM (applyDelete bindings) afterAdd = .ok new := rfl
  have applied : update.apply bindings item = .ok new := by
    rw [Update.apply, sets]
    change Except.bind (List.foldlM _ (applyRemovals _ [⟨"m", [.key "y"]⟩]) _) _ = _
    rw [removed, adds]
    exact deletes
  exact ⟨ordered, values, valid, applied, apply_effect ordered values valid applied⟩

end Update
end ItemStore
