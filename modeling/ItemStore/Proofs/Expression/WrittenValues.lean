import ItemStore.Proofs.Expression.MapPaths
import ItemStore.Proofs.Expression.Projections
import ItemStore.Proofs.Value.KeptPlaces

/-!
The values that an update writes, and what is told of them afterwards. The parts at the targets are
looked up in the item after the update by the paths as they are written. They have every value that
stands at its path by then: one that is set beyond the end of a list does not, nor does one that was
moved when something in front of it was taken out.
-/

namespace ItemStore

namespace UpdateTask

variable {bindings : Bindings} {before start final item after : Item} {task : UpdateTask}
  {later : List UpdateTask} {place : Location} {value : AttributeValue}

def Spare (bindings : Bindings) (before item : Item) (later : List UpdateTask)
    (place : Location) : Prop :=
  ∀ task ∈ later, InFront task.target.way place.way → ∀ made,
    task.edit bindings before item = .ok (some made) → made.new.isSome = true

theorem alike_of_stands (stands : (item.at? place).isSome = true)
    (away : Apart task.target.way place.way)
    (spares : InFront task.target.way place.way → ∀ made,
      task.edit bindings before item = .ok (some made) → made.new.isSome = true)
    (carried : task.carryOut bindings before item = .ok after) :
    AttributeValue.Alike place.way (.map item) (.map after) := by
  have standing : ((AttributeValue.map item).at? place.way).isSome = true := stands
  refine alike_of_carryOut away (fun made edited => Bool.eq_false_iff.mpr fun disturbed => ?_)
    carried
  rw [Edit.disturbs, (edit_spec edited).1] at disturbed
  obtain ⟨drops, front⟩ := AttributeValue.inFront_of_disturbs standing disturbed
  rw [← Option.not_isSome, spares front made edited] at drops
  cases drops

/-- What stands at a place goes on standing there while nothing in front of it is taken out. -/
theorem at?_of_spare (apart : later.Pairwise fun a b => Apart a.target.way b.target.way)
    (away : ∀ task ∈ later, Apart task.target.way place.way)
    (spares : Spare bindings before start later place) (stands : start.at? place = some value)
    (ok : later.foldlM (carryOut bindings before) start = .ok final) :
    final.at? place = some value := by
  induction later generalizing start with
  | nil =>
      cases ok
      exact stands
  | cons task rest ih =>
      rw [List.foldlM_cons] at ok
      obtain ⟨middle, carried, ok⟩ := bind_ok ok
      obtain ⟨apartHead, apartRest⟩ := List.pairwise_cons.mp apart
      have standing : (start.at? place).isSome = true := by rw [stands]; rfl
      have here := spares task List.mem_cons_self
      have kept := alike_of_stands standing (away task List.mem_cons_self) here carried
      refine ih apartRest (fun other member => away other (List.mem_cons_of_mem _ member)) ?_
        ((AttributeValue.at?_of_alike kept).trans stands) ok
      -- What stands in front has not been moved either, so that each action still finds it.
      intro other member front made edited
      have stillThere := alike_of_stands
        (Item.isSome_at?_of_inFront front standing)
        (apartHead other member) (fun further => here (further.trans front)) carried
      rw [edit_congr (AttributeValue.at?_of_alike stillThere)] at edited
      exact spares other (List.mem_cons_of_mem _ member) front made edited

end UpdateTask

namespace Update

variable {update : Update} {bindings : Bindings} {names : List String} {before new : Item}
  {task : UpdateTask} {found left : Item} {later : List UpdateTask} {location : Location}
  {value : AttributeValue}

structure Turn (update : Update) (bindings : Bindings) (before new : Item) (task : UpdateTask)
    (found left : Item) (later : List UpdateTask) : Prop where
  order : ∃ (placed : update.Placed bindings) (earlier : List UpdateTask),
    placed.carriedOut = earlier ++ task :: later ∧
      earlier.foldlM (UpdateTask.carryOut bindings before) before = .ok found
  step : task.carryOut bindings before found = .ok left
  rest : later.foldlM (UpdateTask.carryOut bindings before) left = .ok new

structure Settles (bindings : Bindings) (before : Item) (location : Location) (found left : Item)
    (later : List UpdateTask) : Prop where
  reaches : (AttributeValue.map found).Reaches location.way
  spares : UpdateTask.Spare bindings before left later location

/-- Nothing moves the place: it is reached by map keys alone, or something stands there in the item
as it was, and neither `REMOVE` nor `DELETE` is about an element in front of it. -/
def Unmoved (update : Update) (bindings : Bindings) (before : Item) (location : Location) : Prop :=
  location.Keyed ∨ (before.at? location).isSome = true ∧
    ∀ path ∈ update.remove ++ update.delete.map Prod.fst, ∀ target,
      bindings.location path = .ok target → ¬InFront target.way location.way

theorem Placed.exists_turn (placed : update.Placed bindings) (ordered : before.Ordered)
    (values : Item.Ordered bindings.values) (ok : update.apply bindings before = .ok new)
    (member : task ∈ placed.carriedOut) :
    ∃ found left later, update.Turn bindings before new task found left later := by
  have carried := placed.carriedOut_ok ordered values ok
  obtain ⟨earlier, later, same⟩ := List.append_of_mem member
  rw [same, List.foldlM_append] at carried
  obtain ⟨found, earlierOk, carried⟩ := bind_ok carried
  rw [List.foldlM_cons] at carried
  obtain ⟨left, step, rest⟩ := bind_ok carried
  exact ⟨found, left, later, ⟨placed, earlier, same, earlierOk⟩, step, rest⟩

theorem Placed.path_of_drop (placed : update.Placed bindings) {item : Item} {made : Edit}
    (member : task ∈ placed.carriedOut)
    (edited : task.edit bindings before item = .ok (some made)) (drops : made.new = none) :
    ∃ path ∈ update.remove ++ update.delete.map Prod.fst,
      bindings.location path = .ok task.target := by
  rcases placed.mem_carriedOut.mp member with set | ⟨target, remove, rfl⟩ | add | delete
  · obtain ⟨action, _, same⟩ := mapM_source placed.setOk task set
    obtain ⟨target, _, rfl⟩ := map_ok same
    obtain ⟨_, _, edited⟩ := bind_ok edited
    cases edited
    cases drops
  · obtain ⟨path, listed, located⟩ := mapM_source placed.removeOk target remove
    exact ⟨path, List.mem_append_left _ listed, located⟩
  · obtain ⟨action, _, same⟩ := mapM_source placed.addOk task add
    obtain ⟨target, _, rfl⟩ := map_ok same
    obtain ⟨_, _, edited⟩ := bind_ok edited
    obtain ⟨_, _, edited⟩ := bind_ok edited
    cases edited
    cases drops
  · obtain ⟨action, listed, same⟩ := mapM_source placed.deleteOk task delete
    obtain ⟨target, located, rfl⟩ := map_ok same
    exact ⟨action.1, List.mem_append_right _ (List.mem_map_of_mem listed), located⟩

theorem Placed.spare_of_unmoved (placed : update.Placed bindings) {tasks : List UpdateTask}
    {item : Item} (among : ∀ task ∈ tasks, task ∈ placed.carriedOut)
    (unmoved : update.Unmoved bindings before location) :
    UpdateTask.Spare bindings before item tasks location := by
  intro task member front made edited
  rcases unmoved with keyed | ⟨_, clear⟩
  · exact absurd front (InFront.not_of_keys keyed.way)
  · by_contra drops
    obtain ⟨path, listed, located⟩ :=
      placed.path_of_drop (among task member) edited (Option.not_isSome_iff_eq_none.mp drops)
    exact clear path listed _ located front

namespace Turn

variable (turn : update.Turn bindings before new task found left later)
  (valid : update.validate bindings names = .ok ())

include turn valid

/-- A value that is written where its path leads, and that nothing moves, stands there at the
end. -/
theorem at?_of_settles
    (edited : task.edit bindings before found = .ok (some ⟨task.target, some value⟩))
    (settles : Settles bindings before task.target found left later) :
    new.at? task.target = some value := by
  obtain ⟨placed, earlier, same, _⟩ := turn.order
  have apart := placed.apart_carriedOut valid
  rw [same] at apart
  obtain ⟨apartHead, apartLater⟩ := List.pairwise_cons.mp (List.pairwise_append.mp apart).2.1
  have written : left.at? task.target = some value := by
    rcases UpdateTask.carryOut_of_edit turn.step with ⟨idle, _⟩ | ⟨made, again, carried⟩
    · cases edited.symm.trans idle
    · cases edited.symm.trans again
      exact AttributeValue.at?_of_edit?_reaching settles.reaches carried
  exact UpdateTask.at?_of_spare apartLater (fun other member => (apartHead other member).symm)
    settles.spares written turn.rest

theorem at?_found (unmoved : update.Unmoved bindings before task.target) :
    found.at? task.target = before.at? task.target := by
  obtain ⟨placed, earlier, same, earlierOk⟩ := turn.order
  have apart := placed.apart_carriedOut valid
  rw [same] at apart
  obtain ⟨apartEarlier, _, between⟩ := List.pairwise_append.mp apart
  have away : ∀ other ∈ earlier, Apart other.target.way task.target.way :=
    fun other member => between other member task List.mem_cons_self
  have among : ∀ other ∈ earlier, other ∈ placed.carriedOut := fun other member => by
    rw [same]
    exact List.mem_append_left _ member
  have spares : UpdateTask.Spare bindings before before earlier task.target :=
    placed.spare_of_unmoved among unmoved
  rcases unmoved with keyed | ⟨stands, _⟩
  · exact AttributeValue.at?_of_alike (UpdateTask.alike_of_carryOuts keyed away earlierOk)
  · obtain ⟨value, here⟩ := Option.isSome_iff_exists.mp stands
    rw [here]
    exact UpdateTask.at?_of_spare apartEarlier away spares here earlierOk

theorem settles_of_unmoved (unmoved : update.Unmoved bindings before task.target) :
    Settles bindings before task.target found left later := by
  have here := turn.at?_found valid unmoved
  obtain ⟨placed, earlier, same, _⟩ := turn.order
  refine ⟨?_, placed.spare_of_unmoved (fun other member => ?_) unmoved⟩
  · rcases unmoved with keyed | ⟨stands, _⟩
    · exact AttributeValue.Reaches.of_keys keyed.way
    · rw [← here] at stands
      exact AttributeValue.Reaches.of_stands stands
  · rw [same]
    exact List.mem_append_right _ (List.mem_cons_of_mem _ member)

end Turn

end Update

/-! What is told of an item after an update. -/

/-- The parts of an item at the locations have the value that stands at a place: within the same
entries of maps and among the same elements of lists, and at the place itself if map keys alone lead
there. -/
structure Item.Shows (item : Item) (locations : List Location) (shown : Option Item)
    (place : Location) (value : AttributeValue) : Prop where
  stands : item.at? place = some value
  shown : ∃ parts, shown = some parts ∧ parts.at? (item.keptPlace locations place) = some value
  corresponds :
    List.Forall₂ Segment.Corresponds place.way (item.keptPlace locations place).way
  keyed : place.Keyed → item.keptPlace locations place = place

namespace Update

/-- What is told of the item after an update: all that it has at the targets as they are written,
and nothing else. That includes every value that `SET` or `ADD` writes where its path leads, if
nothing moves it afterwards. -/
structure Reports (update : Update) (bindings : Bindings) (before new : Item)
    (locations : List Location) (shown : Option Item) : Prop where
  targets : update.targets.mapM bindings.location = .ok locations
  whole : ∀ place value, new.at? place = some value →
    (∃ target ∈ locations, target.way <+: place.way) → new.Shows locations shown place value
  only : ∀ parts, shown = some parts → new.Projects locations parts ∧ parts ≠ []
  set : ∀ action ∈ update.set, ∃ location value found left later,
    bindings.location action.1 = .ok location ∧ action.2.evaluate bindings before = .ok value ∧
    update.Turn bindings before new (.set location action.2) found left later ∧
    (update.Unmoved bindings before location ∨ Settles bindings before location found left later →
      new.Shows locations shown location value)
  add : ∀ action ∈ update.add, ∃ location operand total found left later,
    bindings.location action.1 = .ok location ∧ bindings.value action.2 = .ok operand ∧
    Adds (found.at? location) operand total ∧
    update.Turn bindings before new (.add location action.2) found left later ∧
    (update.Unmoved bindings before location → found.at? location = before.at? location) ∧
    (update.Unmoved bindings before location ∨ Settles bindings before location found left later →
      new.Shows locations shown location total)

variable {update : Update} {bindings : Bindings} {names : List String} {before new : Item}
  {locations : List Location}

def partsShown (item : Item) (locations : List Location) : Option Item :=
  let parts := item.project (.ofLocations locations)
  if parts.isEmpty then none else some parts

theorem shows_partsShown {item : Item} (ordered : item.Ordered) {place : Location}
    {value : AttributeValue} (stands : item.at? place = some value)
    (below : ∃ target ∈ locations, target.way <+: place.way) :
    item.Shows locations (partsShown item locations) place value := by
  have covered : Covered (locations.map Location.way) place.way := Location.covered_ways.mpr below
  obtain ⟨kept, restricted, there⟩ :=
    AttributeValue.at?_keptWay (AttributeValue.ordered_map.mpr ordered) covered stands
  rw [AttributeValue.restrict_map Location.nil_notMem_ways,
    ← Item.project_eq_restrictEntries ordered] at restricted
  split at restricted <;> cases restricted
  rename_i full
  refine ⟨stands, ⟨_, if_neg full, ?_⟩, Item.corresponds_keptPlace _ _ _, fun keyed => ?_⟩
  · rw [← Item.at?_map, Item.keptPlace_way]
    exact there
  · rw [Item.keptPlace, AttributeValue.keptWay_of_keys keyed.way]
    rfl

theorem reports (ordered : before.Ordered) (values : Item.Ordered bindings.values)
    (valid : update.validate bindings names = .ok ())
    (ok : update.apply bindings before = .ok new) :
    ∃ locations, update.Reports bindings before new locations (partsShown new locations) := by
  obtain ⟨locations, located⟩ := targets_located valid
  obtain ⟨placed⟩ := Placed.exists_of_validate valid
  have newOrdered := apply_ordered ordered values ok
  have asked : ∀ {task : UpdateTask}, task ∈ placed.carriedOut → task.target ∈ locations := by
    intro task member
    obtain ⟨path, listed, named⟩ := placed.target_mem member
    exact (Projection.mem_located located).mpr ⟨path, listed, named⟩
  have shows : ∀ {task : UpdateTask} {value : AttributeValue}, task ∈ placed.carriedOut →
      new.at? task.target = some value →
      new.Shows locations (partsShown new locations) task.target value :=
    fun member stands => shows_partsShown newOrdered stands ⟨_, asked member, List.prefix_rfl⟩
  refine ⟨locations, located, fun place value stands below =>
    shows_partsShown newOrdered stands below, ?_, ?_, ?_⟩
  · intro parts same
    rw [partsShown] at same
    split at same <;> cases same
    rename_i full
    exact ⟨Item.project_projects newOrdered, fun none => full (List.isEmpty_iff.mpr none)⟩
  · intro action member
    obtain ⟨location, here, listed⟩ := task_of_action placed.setOk member
    have carried := placed.mem_carriedOut.mpr (Or.inl listed)
    obtain ⟨found, left, later, turn⟩ := placed.exists_turn ordered values ok carried
    obtain ⟨made, edited, _⟩ := bind_ok turn.step
    obtain ⟨value, evaluated, same⟩ := bind_ok edited
    cases same
    refine ⟨location, value, found, left, later, here, evaluated, turn, fun clear => ?_⟩
    have settles := clear.elim (turn.settles_of_unmoved valid) id
    exact shows carried (turn.at?_of_settles valid edited settles)
  · intro action member
    obtain ⟨location, here, listed⟩ := task_of_action placed.addOk member
    have carried := placed.mem_carriedOut.mpr (Or.inr (Or.inr (Or.inl listed)))
    obtain ⟨found, left, later, turn⟩ := placed.exists_turn ordered values ok carried
    obtain ⟨made, edited, _⟩ := bind_ok turn.step
    obtain ⟨operand, given, same⟩ := bind_ok edited
    obtain ⟨total, sum, same⟩ := bind_ok same
    cases same
    refine ⟨location, operand, total, found, left, later, here, given, adds_of_added sum, turn,
      turn.at?_found valid, fun clear => ?_⟩
    have settles := clear.elim (turn.settles_of_unmoved valid) id
    exact shows carried (turn.at?_of_settles valid edited settles)

end Update
end ItemStore
