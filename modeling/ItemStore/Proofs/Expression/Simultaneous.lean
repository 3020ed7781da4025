import ItemStore.Expression.Update.Targets
import ItemStore.Proofs.Expression.UpdateTasks

/-!
The actions of an update taken together: each is worked out on the item as it was, all new values
are written, and then all that goes is dropped. To carry out the clauses one after another comes to
the same, provided that no action disturbs the place of a later one.
-/

namespace ItemStore

namespace Update

def tasks (update : Update) (bindings : Bindings) : Except ExpressionError (List UpdateTask) := do
  let set ← update.set.mapM fun action => (bindings.location action.1).map (.set · action.2)
  let remove ← update.remove.mapM fun path => (bindings.location path).map .remove
  let add ← update.add.mapM fun action => (bindings.location action.1).map (.add · action.2)
  let delete ← update.delete.mapM fun action =>
    (bindings.location action.1).map (.delete · action.2)
  return set ++ (remove ++ (add ++ delete))

/-- All actions at once: every edit is worked out on the item as it was, then new values are
written, then what goes is dropped. -/
def simultaneous (update : Update) (bindings : Bindings) (item : Item) :
    Except ExpressionError Item := do
  let tasks ← update.tasks bindings
  let planned ← tasks.mapM (UpdateTask.edit bindings item item)
  let edits := planned.filterMap id
  let written ← (edits.filter fun edit => edit.new.isSome).foldlM Edit.carryOut item
  return applyRemovals written ((edits.filter fun edit => edit.new.isNone).map Edit.target)

/-- No action disturbs the place of a later one. Values that are set may disturb each other, since
none of them depends on what its place holds, and so may removals, since the highest positions go
first. -/
def Steady (update : Update) (bindings : Bindings) (item : Item) : Prop :=
  ∀ tasks, update.tasks bindings = .ok tasks → tasks.Pairwise fun first second =>
    first.sameClause second = true ∨ first.disturbs bindings item second.target = false

variable {update : Update} {bindings : Bindings} {names : List String} {item new : Item}

theorem separate_of_validate {locations : List Location}
    (valid : update.validate bindings names = .ok ())
    (located : update.targets.mapM bindings.location = .ok locations) :
    locations.Pairwise fun a b => Apart a.way b.way := by
  obtain ⟨_, placed, _, pairwise⟩ := validate_ok_iff.mp valid
  cases located.symm.trans placed
  exact pairwise.imp Location.apart_of_meets_eq_false

theorem mapM_location {α : Type} {path : α → Path} {task : α → Location → UpdateTask}
    (targets : ∀ action location, (task action location).target = location) {actions : List α}
    {tasks : List UpdateTask}
    (ok : actions.mapM (fun action => (bindings.location (path action)).map (task action)) =
      .ok tasks) :
    (actions.map path).mapM bindings.location = .ok (tasks.map UpdateTask.target) := by
  induction actions generalizing tasks with
  | nil =>
      cases ok
      rfl
  | cons action rest ih =>
      obtain ⟨first, others, here, later, rfl⟩ := mapM_cons_ok ok
      obtain ⟨location, located, rfl⟩ := map_ok here
      rw [List.map_cons, List.mapM_cons, located, ih later, List.map_cons, targets]
      rfl

theorem mapM_located {α : Type} {path : α → Path} {task : α → Location → UpdateTask}
    {actions : List α} (located : ∀ action ∈ actions, ∃ location,
      bindings.location (path action) = .ok location) :
    ∃ tasks, actions.mapM (fun action => (bindings.location (path action)).map (task action)) =
      .ok tasks := by
  refine mapM_total fun action member => ?_
  obtain ⟨location, here⟩ := located action member
  exact ⟨task action location, by rw [here]; rfl⟩

theorem mapM_targets {tasks : List UpdateTask} (placed : update.tasks bindings = .ok tasks) :
    update.targets.mapM bindings.location = .ok (tasks.map UpdateTask.target) := by
  obtain ⟨set, setOk, placed⟩ := bind_ok placed
  obtain ⟨remove, removeOk, placed⟩ := bind_ok placed
  obtain ⟨add, addOk, placed⟩ := bind_ok placed
  obtain ⟨delete, deleteOk, placed⟩ := bind_ok placed
  cases placed
  have removes := @mapM_location bindings Path id (fun _ => UpdateTask.remove) (fun _ _ => rfl)
    _ _ removeOk
  rw [List.map_id] at removes
  simp only [targets, List.append_assoc, List.mapM_append, List.map_append, removes,
    mapM_location (fun _ _ => rfl) setOk, mapM_location (fun _ _ => rfl) addOk,
    mapM_location (fun _ _ => rfl) deleteOk]
  rfl

theorem apart_of_validate {tasks : List UpdateTask}
    (valid : update.validate bindings names = .ok ())
    (placed : update.tasks bindings = .ok tasks) :
    tasks.Pairwise fun a b => Apart a.target.way b.target.way :=
  (List.pairwise_map (f := UpdateTask.target)).mp
    (separate_of_validate valid (mapM_targets placed))

theorem steady_of_fields
    (fields : ∀ path ∈ update.targets, ∀ step ∈ path.steps, ∃ name, step = .field name) :
    update.Steady bindings item := by
  intro tasks placed
  refine List.pairwise_of_forall_mem_list fun first member second _ => Or.inr ?_
  obtain ⟨path, listed, located⟩ := mapM_source (mapM_targets placed) _ (List.mem_map_of_mem member)
  exact UpdateTask.disturbs_of_keyed (Location.Keyed.of_fields (fields path listed) located)

/-! The clauses carry out the tasks one after another. -/

theorem carryOut_of_applySet (action : Path × SetValue) (task : UpdateTask) (before after : Item)
    (placed : (bindings.location action.1).map (UpdateTask.set · action.2) = .ok task)
    (ok : applySet bindings item before action = .ok after) :
    task.carryOut bindings item before = .ok after := by
  obtain ⟨location, located, rfl⟩ := map_ok placed
  obtain ⟨value, evaluated, ok⟩ := bind_ok ok
  rw [located] at ok
  simp only [UpdateTask.carryOut, UpdateTask.edit, evaluated]
  exact ok

theorem carryOut_of_applyAdd (action : Path × String) (task : UpdateTask) (before after : Item)
    (placed : (bindings.location action.1).map (UpdateTask.add · action.2) = .ok task)
    (ok : applyAdd bindings before action = .ok after) :
    task.carryOut bindings item before = .ok after := by
  obtain ⟨location, located, rfl⟩ := map_ok placed
  obtain ⟨operand, found, ok⟩ := bind_ok ok
  obtain ⟨_, again, ok⟩ := bind_ok ok
  cases located.symm.trans again
  obtain ⟨value, sum, ok⟩ := bind_ok ok
  rw [UpdateTask.carryOut, UpdateTask.edit, found]
  change (Except.bind (Except.bind (added _ _) _) _) = _
  rw [sum]
  exact ok

theorem carryOut_of_applyDelete (action : Path × String) (task : UpdateTask) (before after : Item)
    (placed : (bindings.location action.1).map (UpdateTask.delete · action.2) = .ok task)
    (ok : applyDelete bindings before action = .ok after) :
    task.carryOut bindings item before = .ok after := by
  obtain ⟨location, located, rfl⟩ := map_ok placed
  obtain ⟨operand, found, ok⟩ := bind_ok ok
  split at ok
  · cases ok
  · rename_i sets
    obtain ⟨_, again, ok⟩ := bind_ok ok
    cases located.symm.trans again
    split at ok
    · rename_i here
      cases ok
      simp [UpdateTask.carryOut, UpdateTask.edit, found, sets, here, bind, Except.bind, pure,
        Except.pure]
    · rename_i current here
      split at ok
      · cases ok
      · rename_i rest remaining
        simp only [UpdateTask.carryOut, UpdateTask.edit, found, here, remaining, bind,
          Except.bind, pure, Except.pure, if_neg sets]
        split at ok
        · rename_i empty
          rw [if_pos empty]
          exact ok
        · rename_i more
          rw [if_neg more]
          exact ok

structure Placed (update : Update) (bindings : Bindings) where
  set : List UpdateTask
  remove : List Location
  add : List UpdateTask
  delete : List UpdateTask
  setOk : update.set.mapM (fun action => (bindings.location action.1).map (.set · action.2)) =
    .ok set
  removeOk : update.remove.mapM bindings.location = .ok remove
  addOk : update.add.mapM (fun action => (bindings.location action.1).map (.add · action.2)) =
    .ok add
  deleteOk : update.delete.mapM (fun action =>
    (bindings.location action.1).map (.delete · action.2)) = .ok delete

namespace Placed

theorem exists_of_validate (valid : update.validate bindings names = .ok ()) :
    Nonempty (update.Placed bindings) := by
  obtain ⟨locations, placed⟩ := targets_located valid
  have located : ∀ path ∈ update.targets, ∃ location, bindings.location path = .ok location := by
    intro path member
    obtain ⟨location, _, here⟩ := mapM_reaches placed path member
    exact ⟨location, here⟩
  simp only [targets, List.mem_append, List.mem_map] at located
  obtain ⟨set, setOk⟩ := @mapM_located bindings _ Prod.fst
    (fun action => (UpdateTask.set · action.2)) update.set
    fun action member => located _ (Or.inl (Or.inl (Or.inl ⟨action, member, rfl⟩)))
  obtain ⟨remove, removeOk⟩ := @mapM_total _ _ _ bindings.location update.remove
    fun path member => located path (Or.inl (Or.inl (Or.inr member)))
  obtain ⟨add, addOk⟩ := @mapM_located bindings _ Prod.fst
    (fun action => (UpdateTask.add · action.2)) update.add
    fun action member => located _ (Or.inl (Or.inr ⟨action, member, rfl⟩))
  obtain ⟨delete, deleteOk⟩ := @mapM_located bindings _ Prod.fst
    (fun action => (UpdateTask.delete · action.2)) update.delete
    fun action member => located _ (Or.inr ⟨action, member, rfl⟩)
  exact ⟨⟨set, remove, add, delete, setOk, removeOk, addOk, deleteOk⟩⟩

variable (placed : update.Placed bindings)

theorem tasks_eq : update.tasks bindings =
    .ok (placed.set ++ (placed.remove.map .remove ++ (placed.add ++ placed.delete))) := by
  simp only [tasks, placed.setOk, mapM_map_ok UpdateTask.remove placed.removeOk, placed.addOk,
    placed.deleteOk]
  rfl

def sorted : List Location :=
  placed.remove.mergeSort fun a b => (compare b a).isLE

theorem sorted_perm : placed.sorted.Perm placed.remove :=
  List.mergeSort_perm _ _

theorem isSet_of_mem : ∀ task ∈ placed.set, task.isSet = true := by
  intro task member
  obtain ⟨action, _, same⟩ := mapM_source placed.setOk task member
  obtain ⟨_, _, rfl⟩ := map_ok same
  rfl

theorem others_of_mem : ∀ task ∈ placed.add ++ placed.delete,
    task.isSet = false ∧ task.isRemove = false := by
  intro task member
  rcases List.mem_append.mp member with adds | deletes
  · obtain ⟨action, _, same⟩ := mapM_source placed.addOk task adds
    obtain ⟨_, _, rfl⟩ := map_ok same
    exact ⟨rfl, rfl⟩
  · obtain ⟨action, _, same⟩ := mapM_source placed.deleteOk task deletes
    obtain ⟨_, _, rfl⟩ := map_ok same
    exact ⟨rfl, rfl⟩

theorem sameClause_of_set {first task : UpdateTask} (set : first ∈ placed.set)
    (member : task ∈ placed.remove.map UpdateTask.remove ++ (placed.add ++ placed.delete)) :
    first.sameClause task = false := by
  have notSet : task.isSet = false := by
    rcases List.mem_append.mp member with removes | last
    · obtain ⟨_, _, rfl⟩ := List.mem_map.mp removes
      rfl
    · exact (placed.others_of_mem task last).1
  have isSet := placed.isSet_of_mem first set
  cases first with
  | set target value => simp [UpdateTask.sameClause, notSet, UpdateTask.isRemove]
  | _ => cases isSet

def inTurn : List UpdateTask :=
  placed.sorted.map .remove ++ (placed.add ++ placed.delete)

theorem inTurn_perm : placed.inTurn.Perm
    (placed.remove.map .remove ++ (placed.add ++ placed.delete)) :=
  (placed.sorted_perm.map _).append_right _

theorem carried (ordered : item.Ordered) (values : Item.Ordered bindings.values)
    (ok : update.apply bindings item = .ok new) : ∃ afterSet : Item, afterSet.Ordered ∧
      placed.set.foldlM (UpdateTask.carryOut bindings item) item = .ok afterSet ∧
      placed.inTurn.foldlM (UpdateTask.carryOut bindings item) afterSet = .ok new := by
  obtain ⟨afterSet, setsOk, ok⟩ := bind_ok ok
  obtain ⟨locations, located, ok⟩ := bind_ok ok
  cases placed.removeOk.symm.trans located
  obtain ⟨afterAdd, addsOk, deletesOk⟩ := bind_ok ok
  have afterOrdered : afterSet.Ordered := by
    refine foldlM_invariant (fun action _ before after beforeOrdered stepped => ?_) ordered setsOk
    obtain ⟨value, evaluated, stepped⟩ := bind_ok stepped
    obtain ⟨location, _, stepped⟩ := bind_ok stepped
    exact Item.ordered_place beforeOrdered (SetValue.ordered_evaluate ordered values evaluated)
      stepped
  have adds : placed.add.foldlM (UpdateTask.carryOut bindings item)
      (applyRemovals afterSet placed.remove) = .ok afterAdd :=
    foldlM_mapM (@carryOut_of_applyAdd bindings item) placed.addOk addsOk
  have deletes : placed.delete.foldlM (UpdateTask.carryOut bindings item) afterAdd = .ok new :=
    foldlM_mapM (@carryOut_of_applyDelete bindings item) placed.deleteOk deletesOk
  have last : (placed.add ++ placed.delete).foldlM (UpdateTask.carryOut bindings item)
      (applyRemovals afterSet placed.remove) = .ok new := by
    rw [List.foldlM_append, adds]
    exact deletes
  refine ⟨afterSet, afterOrdered, ?_, ?_⟩
  · exact foldlM_mapM (@carryOut_of_applySet bindings item) placed.setOk setsOk
  · rw [inTurn, List.foldlM_append, UpdateTask.carryOut_removes afterOrdered]
    exact last

theorem apart_inTurn (valid : update.validate bindings names = .ok ()) :
    placed.inTurn.Pairwise fun a b => Apart a.target.way b.target.way := by
  have apart := apart_of_validate valid placed.tasks_eq
  exact (placed.inTurn_perm.pairwise_iff Apart.symm).mpr (List.pairwise_append.mp apart).2.1

theorem undisturbed_inTurn (steady : update.Steady bindings item) :
    placed.inTurn.Pairwise fun a b => a.disturbs bindings item b.target = false := by
  obtain ⟨_, steadyRest, _⟩ := List.pairwise_append.mp (steady _ placed.tasks_eq)
  obtain ⟨_, steadyLast, steadyRemoves⟩ := List.pairwise_append.mp steadyRest
  refine List.pairwise_append.mpr ⟨?_, ?_, ?_⟩
  · rw [List.pairwise_map]
    exact (Edit.pairwise_highestFirst placed.remove).imp UpdateTask.disturbs_remove
  · exact steadyLast.imp_of_mem fun _ member both =>
      both.resolve_left (by simp [UpdateTask.sameClause, placed.others_of_mem _ member])
  · intro first removes last member
    obtain ⟨place, listed, rfl⟩ := List.mem_map.mp removes
    have original := List.mem_map_of_mem (f := UpdateTask.remove)
      (placed.sorted_perm.subset listed)
    exact (steadyRemoves _ original last member).resolve_left
      (by simp [UpdateTask.sameClause, placed.others_of_mem _ member])

theorem alike_inTurn (valid : update.validate bindings names = .ok ())
    (steady : update.Steady bindings item) {afterSet : Item}
    (setsOk : placed.set.foldlM (UpdateTask.carryOut bindings item) item = .ok afterSet) :
    ∀ task ∈ placed.inTurn,
      AttributeValue.Alike task.target.way (.map item) (.map afterSet) := by
  obtain ⟨apartSet, _, apartBetween⟩ :=
    List.pairwise_append.mp (apart_of_validate valid placed.tasks_eq)
  obtain ⟨_, _, steadyBetween⟩ := List.pairwise_append.mp (steady _ placed.tasks_eq)
  intro task member
  have listed := placed.inTurn_perm.subset member
  refine UpdateTask.alike_of_sets placed.isSet_of_mem apartSet
    (fun first set => apartBetween first set task listed) (fun first set => ?_)
    (fun _ _ => AttributeValue.Extends.refl _ _) (AttributeValue.Alike.refl _ _) setsOk
  exact (steadyBetween first set task listed).resolve_left
    (by simp [placed.sameClause_of_set set listed])

/-- The edits of an update but for the values that are set, as they are carried out and as they are
written: both lists differ in the order of what is removed. -/
theorem edits_of_inTurn {edits : List (Option Edit)}
    (planned : placed.inTurn.mapM (UpdateTask.edit bindings item item) = .ok edits) :
    ∃ written, (placed.remove.map UpdateTask.remove ++ (placed.add ++ placed.delete)).mapM
        (UpdateTask.edit bindings item item) = .ok written ∧
      (written.filterMap id).Perm (edits.filterMap id) ∧
      ((written.filterMap id).filter fun edit => edit.new.isSome) =
        (edits.filterMap id).filter fun edit => edit.new.isSome := by
  obtain ⟨sorted, sortedPlanned, sortedDrops⟩ :=
    @UpdateTask.mapM_edit_remove bindings item item placed.sorted
  obtain ⟨removals, removalsPlanned, drops⟩ :=
    @UpdateTask.mapM_edit_remove bindings item item placed.remove
  rw [inTurn, List.mapM_append] at planned
  obtain ⟨_, again, planned⟩ := bind_ok planned
  cases sortedPlanned.symm.trans again
  obtain ⟨last, lastPlanned, planned⟩ := bind_ok planned
  cases planned
  have unwritten : ∀ places : List Location,
      ((places.map Edit.drop).filter fun edit => edit.new.isSome) = [] := by
    intro places
    simp [Edit.drop]
  refine ⟨removals ++ last, ?_, ?_, ?_⟩
  · rw [List.mapM_append, removalsPlanned, lastPlanned]
    rfl
  · rw [List.filterMap_append, List.filterMap_append, sortedDrops, drops]
    exact ((placed.sorted_perm.symm.filter _).map _).append_right _
  · rw [List.filterMap_append, List.filterMap_append, sortedDrops, drops, List.filter_append,
      List.filter_append, unwritten, unwritten]

end Placed

/-- An accepted update of which no action disturbs the place of a later one comes to what all its
actions come to at once. -/
theorem apply_eq_simultaneous (ordered : item.Ordered) (values : Item.Ordered bindings.values)
    (valid : update.validate bindings names = .ok ()) (steady : update.Steady bindings item)
    (ok : update.apply bindings item = .ok new) :
    update.simultaneous bindings item = .ok new := by
  obtain ⟨placed⟩ := Placed.exists_of_validate valid
  obtain ⟨afterSet, afterOrdered, setsOk, restOk⟩ := placed.carried ordered values ok
  have apart := placed.apart_inTurn valid
  have undisturbed := placed.undisturbed_inTurn steady
  have alike := placed.alike_inTurn valid steady setsOk
  obtain ⟨sets, setsPlanned, written, setsMade⟩ :=
    UpdateTask.makeAll?_of_sets placed.isSet_of_mem setsOk
  obtain ⟨edits, planned, made⟩ := UpdateTask.makeAll?_of_carryOut alike apart undisturbed restOk
  have clear := UpdateTask.clear_of_steady alike apart undisturbed planned
  have source : ∀ edit ∈ edits.filterMap id, ∃ task ∈ placed.inTurn,
      task.edit bindings item item = .ok (some edit) := by
    intro edit member
    obtain ⟨_, listed, rfl⟩ := List.mem_filterMap.mp member
    exact mapM_source planned _ listed
  have fits : ∀ edit ∈ edits.filterMap id, AttributeValue.OrderedIf edit.new := by
    intro edit member
    obtain ⟨task, _, same⟩ := source edit member
    exact UpdateTask.ordered_edit ordered values same
  have stands : ∀ edit ∈ edits.filterMap id, edit.new.isNone = true →
      (afterSet.at? edit.target).isSome = true := by
    intro edit member dropped
    obtain ⟨task, listed, same⟩ := source edit member
    obtain ⟨place, standing⟩ := UpdateTask.edit_spec same
    have kept : afterSet.at? task.target = item.at? task.target :=
      AttributeValue.at?_of_alike (alike task listed)
    rw [place, kept]
    exact standing (Option.isNone_iff_eq_none.mp dropped)
  obtain ⟨others, othersPlanned, same, inOrder⟩ := placed.edits_of_inTurn planned
  obtain ⟨middle, carried, rfl⟩ :=
    Edit.carryOut_together afterOrdered fits clear stands written setsMade made same inOrder
  have all : (placed.set ++ (placed.remove.map UpdateTask.remove ++
      (placed.add ++ placed.delete))).mapM (UpdateTask.edit bindings item item) =
        .ok (sets.map some ++ others) := by
    rw [List.mapM_append, setsPlanned, othersPlanned]
    rfl
  have allEdits : (sets.map some ++ others).filterMap id = sets ++ others.filterMap id := by
    rw [List.filterMap_append, List.filterMap_map]
    exact congrArg (· ++ _) List.filterMap_some
  rw [simultaneous, placed.tasks_eq]
  change Except.bind (List.mapM _ _) _ = _
  rw [all]
  change Except.bind (List.foldlM _ _ _) _ = _
  rw [allEdits, carried]
  rfl

theorem applyRemovals_singleton (item : Item) (location : Location) :
    applyRemovals item [location] = item.takeOut location := by
  rw [applyRemovals, List.mergeSort_singleton]
  rfl

theorem apply_eq_simultaneous_allClauses :
    let place (position : Nat) : Path := ⟨.literal "l", [.index position]⟩
    let update : Update := ⟨[(place 1, .operand (.path (place 3)))], [place 3],
      [(place 0, ":s")], [(place 2, ":s")]⟩
    let bindings : Bindings := ⟨[], [(":s", .stringSet ["c"])]⟩
    let item : Item := [("l", .list
      [.stringSet ["a"], .string "x", .stringSet ["c", "d"], .string "y"])]
    let new : Item := [("l", .list [.stringSet ["a", "c"], .string "y", .stringSet ["d"]])]
    item.Ordered ∧ Item.Ordered bindings.values ∧
      update.validate bindings ["id"] = .ok () ∧ update.Steady bindings item ∧
      update.apply bindings item = .ok new ∧ update.simultaneous bindings item = .ok new := by
  intro place update bindings item new
  have ordered : item.Ordered := by decide
  have values : Item.Ordered bindings.values := by decide
  have valid : update.validate bindings ["id"] = .ok () := rfl
  have steady : update.Steady bindings item := by
    intro tasks placed
    cases placed
    decide +kernel
  have value : bindings.value ":s" = .ok (.stringSet ["c"]) := by
    simp [bindings, Bindings.value, Dict.get?]
  have applied : update.apply bindings item = .ok new := by
    simp [update, item, new, place, Update.apply, applySet, applyAdd, applyDelete, value,
      applyRemovals_singleton, SetValue.evaluate, UpdateOperand.evaluate, Bindings.lookup,
      Bindings.location, Bindings.name, Bindings.segment, Item.at?, Item.place, Item.takeOut,
      AttributeValue.at?, AttributeValue.place?, AttributeValue.takeOut, Dict.get?, Dict.insert,
      added, AttributeValue.isSet, AttributeValue.union?, AttributeValue.difference?,
      AttributeValue.isEmptySet, bind, Except.bind, pure, Except.pure, Except.map]
  exact ⟨ordered, values, valid, steady, applied,
    apply_eq_simultaneous ordered values valid steady applied⟩

/-- Once the first element has been removed, `ADD` finds the third where the second was. -/
theorem apply_ne_simultaneous_shifted :
    let place (position : Nat) : Path := ⟨.literal "l", [.index position]⟩
    let update : Update := ⟨[], [place 0], [(place 1, ":s")], []⟩
    let bindings : Bindings := ⟨[], [(":s", .stringSet ["c"])]⟩
    let item : Item := [("l", .list [.string "x", .stringSet ["a"], .stringSet ["b"]])]
    let left : Item := [("l", .list [.stringSet ["a"], .stringSet ["b", "c"]])]
    let right : Item := [("l", .list [.stringSet ["a", "c"], .stringSet ["b"]])]
    update.validate bindings ["id"] = .ok () ∧ update.apply bindings item = .ok left ∧
      update.simultaneous bindings item = .ok right ∧
      update.apply bindings item ≠ update.simultaneous bindings item := by
  intro place update bindings item left right
  have value : bindings.value ":s" = .ok (.stringSet ["c"]) := by
    simp [bindings, Bindings.value, Dict.get?]
  have applied : update.apply bindings item = .ok left := by
    simp [update, item, left, place, Update.apply, applyAdd, value, applyRemovals_singleton,
      Bindings.location, Bindings.name, Bindings.segment, Item.at?, Item.place, Item.takeOut,
      AttributeValue.at?, AttributeValue.place?, AttributeValue.takeOut, Dict.get?, Dict.insert,
      added, AttributeValue.isSet, AttributeValue.union?, bind, Except.bind, pure, Except.pure]
  have together : update.simultaneous bindings item = .ok right := by
    simp [update, item, right, place, simultaneous, tasks, UpdateTask.edit, value,
      Edit.carryOut, applyRemovals_singleton,
      Bindings.location, Bindings.name, Bindings.segment, Item.at?, Item.place, Item.takeOut,
      AttributeValue.at?, AttributeValue.place?, AttributeValue.takeOut, Dict.get?, Dict.insert,
      added, AttributeValue.isSet, AttributeValue.union?, bind, Except.bind, pure, Except.pure,
      Except.map]
  refine ⟨rfl, applied, together, ?_⟩
  rw [applied, together]
  simp [left, right]

end Update
end ItemStore
