import ItemStore.Proofs.Expression.MapPaths
import ItemStore.Proofs.Value.EditOrder
import Mathlib.Data.List.Perm.Basic

/-!
The order of the actions of a `SET` clause. It matters only for those that go past the end of one
list, since each of them puts its value at the end: all other actions may be written in any order.
-/

namespace ItemStore

theorem mapM_ok_iff {α β ε : Type} {step : α → Except ε β} {values : List α} {results : List β} :
    values.mapM step = .ok results ↔ values.map step = results.map .ok := by
  induction values generalizing results with
  | nil => cases results <;> simp [pure, Except.pure]
  | cons value rest ih =>
      rw [List.mapM_cons, List.map_cons]
      cases step value with
      | error error => cases results <;> simp [bind, Except.bind]
      | ok first =>
          cases results with
          | nil => cases rest.mapM step <;> simp [bind, Except.bind, pure, Except.pure]
          | cons other others =>
              rw [List.map_cons, List.cons.injEq, ← ih]
              cases rest.mapM step <;> simp [bind, Except.bind, pure, Except.pure]

theorem mapM_perm {α β ε : Type} {step : α → Except ε β} {values others : List α}
    {results : List β} (ok : values.mapM step = .ok results) (same : others.Perm values) :
    ∃ changed, others.mapM step = .ok changed ∧ changed.Perm results := by
  obtain ⟨changed, changedOk⟩ := @mapM_total _ _ _ step others fun value member => by
    obtain ⟨result, _, stepped⟩ := mapM_reaches ok value (same.subset member)
    exact ⟨result, stepped⟩
  have mapped := same.map step
  rw [mapM_ok_iff.mp ok, mapM_ok_iff.mp changedOk] at mapped
  exact ⟨changed, changedOk, (List.map_perm_map_iff fun _ _ => Except.ok.inj).mp mapped⟩

theorem mapM_sublist {α β ε : Type} {step : α → Except ε β} {values : List α}
    {results part : List β} (ok : values.mapM step = .ok results) :
    part.Sublist results ↔
      ∃ picked : List α, picked.Sublist values ∧ picked.mapM step = .ok part := by
  simp only [mapM_ok_iff] at ok ⊢
  constructor
  · intro sublist
    have mapped := sublist.map (Except.ok (ε := ε))
    rw [← ok, List.sublist_map_iff] at mapped
    obtain ⟨picked, below, same⟩ := mapped
    exact ⟨picked, below, same.symm⟩
  · rintro ⟨picked, below, same⟩
    have mapped := below.map step
    rw [ok, same, List.sublist_map_iff] at mapped
    obtain ⟨found, within, equal⟩ := mapped
    rwa [List.map_injective_iff.mpr (fun _ _ => Except.ok.inj) equal]

namespace Update

def setEdit (bindings : Bindings) (item : Item) (action : Path × SetValue) :
    Except ExpressionError Edit := do
  let value ← action.2.evaluate bindings item
  let location ← bindings.location action.1
  return ⟨location, some value⟩

variable {bindings : Bindings} {names : List String} {item start new : Item}
  {sets others : List (Path × SetValue)} {action : Path × SetValue} {edit : Edit}

theorem applySet_eq (action : Path × SetValue) :
    applySet bindings item start action =
      (setEdit bindings item action).bind (·.carryOut start) := by
  rw [applySet, setEdit]
  cases action.2.evaluate bindings item with
  | error error => rfl
  | ok value => cases bindings.location action.1 <;> rfl

theorem setEdit_ok_iff : setEdit bindings item action = .ok edit ↔
    ∃ value, action.2.evaluate bindings item = .ok value ∧
      bindings.location action.1 = .ok edit.target ∧ edit.new = some value := by
  rw [setEdit]
  cases action.2.evaluate bindings item with
  | error error => simp [bind, Except.bind]
  | ok value =>
      obtain ⟨target, written⟩ := edit
      cases bindings.location action.1 <;>
        simp [bind, Except.bind, pure, Except.pure, eq_comm]

theorem mapM_target_of_setEdit {edits : List Edit}
    (planned : sets.mapM (setEdit bindings item) = .ok edits) :
    (sets.map Prod.fst).mapM bindings.location = .ok (edits.map Edit.target) := by
  induction sets generalizing edits with
  | nil =>
      cases planned
      rfl
  | cons action rest ih =>
      obtain ⟨edit, others, edited, later, rfl⟩ := mapM_cons_ok planned
      obtain ⟨_, _, located, _⟩ := setEdit_ok_iff.mp edited
      rw [List.map_cons, List.mapM_cons, located, ih later]
      rfl

/-- A clause of values to be set comes to the edits of its actions, made one after another. -/
theorem foldlM_applySet_iff : sets.foldlM (applySet bindings item) start = .ok new ↔
    ∃ edits, sets.mapM (setEdit bindings item) = .ok edits ∧
      Edit.makeAll? edits (.map start) = some (.map new) := by
  induction sets generalizing start with
  | nil => simp [pure, Except.pure, Edit.makeAll?]
  | cons action rest ih =>
      rw [List.foldlM_cons, applySet_eq]
      constructor
      · intro ok
        obtain ⟨middle, carried, ok⟩ := bind_ok ok
        obtain ⟨edit, edited, carried⟩ := bind_ok carried
        obtain ⟨edits, planned, made⟩ := ih.mp ok
        obtain ⟨value, _, _, written⟩ := setEdit_ok_iff.mp edited
        have first := (Edit.carryOut_ok_iff fun dropped => by
          rw [written] at dropped
          cases dropped).mp carried
        refine ⟨edit :: edits, ?_, ?_⟩
        · rw [List.mapM_cons, edited, planned]
          rfl
        · rw [Edit.makeAll?_cons, first]
          exact made
      · rintro ⟨edits, planned, made⟩
        obtain ⟨edit, later, edited, others, rfl⟩ := mapM_cons_ok planned
        rw [Edit.makeAll?_cons] at made
        obtain ⟨value, first, made⟩ := Option.bind_eq_some_iff.mp made
        obtain ⟨middle, rfl⟩ := Edit.eq_map_of_make? first
        obtain ⟨value, _, _, written⟩ := setEdit_ok_iff.mp edited
        have carried := (Edit.carryOut_ok_iff fun dropped => by
          rw [written] at dropped
          cases dropped).mpr first
        rw [edited]
        change Except.bind (edit.carryOut start) _ = _
        rw [carried]
        exact ih.mpr ⟨later, others, made⟩

theorem apply_sets : (⟨sets, [], [], []⟩ : Update).apply bindings item =
    sets.foldlM (applySet bindings item) item := by
  rw [apply_of_remove_nil]
  cases sets.foldlM (applySet bindings item) item <;> rfl

/-! An update is accepted in whatever order its targets are written. -/

theorem validate_perm {first second : Update} (same : second.targets.Perm first.targets)
    (valid : first.validate bindings names = .ok ()) :
    second.validate bindings names = .ok () := by
  obtain ⟨locations, placed, noKeys, pairwise⟩ := validate_ok_iff.mp valid
  obtain ⟨others, otherPlaced, sameLocations⟩ := mapM_perm placed same
  refine validate_ok_iff.mpr ⟨others, otherPlaced, ?_, ?_⟩
  · exact fun location member => noKeys location (sameLocations.subset member)
  · refine (sameLocations.pairwise_iff fun {a b} apart => ?_).mpr pairwise
    rwa [meets_symm]

/-- Two actions at positions of one list, or at places below them, where the item has an element at
neither. -/
def Competing (bindings : Bindings) (item : Item) (first second : Path × SetValue) : Prop :=
  ∃ a b, bindings.location first.1 = .ok a ∧ bindings.location second.1 = .ok b ∧
    (AttributeValue.map item).Compete a.way b.way

theorem not_competing_of_fields {first second : Path × SetValue}
    (fields : ∀ step ∈ first.1.steps, ∃ name, step = .field name) :
    ¬Competing bindings item first second := by
  rintro ⟨a, _, located, _, way, rest, _, i, _, _, same, _⟩
  have member : .index i ∈ a.way := same ▸ List.mem_append_right _ List.mem_cons_self
  exact (Location.Keyed.of_fields fields located).index_notMem member

theorem writes_of_setEdits {edits : List Edit} (ordered : item.Ordered)
    (values : Item.Ordered bindings.values)
    (valid : (⟨sets, [], [], []⟩ : Update).validate bindings names = .ok ())
    (planned : sets.mapM (setEdit bindings item) = .ok edits) :
    Edit.Writes (.map item) (.map item) edits where
  ordered := AttributeValue.ordered_map.mpr ordered
  fits edit member := by
    obtain ⟨action, _, edited⟩ := mapM_source planned edit member
    obtain ⟨value, evaluated, _, written⟩ := setEdit_ok_iff.mp edited
    rw [written]
    rintro _ ⟨⟩
    exact SetValue.ordered_evaluate ordered values evaluated
  written edit member := by
    obtain ⟨action, _, edited⟩ := mapM_source planned edit member
    obtain ⟨value, _, _, written⟩ := setEdit_ok_iff.mp edited
    rw [written]
    rfl
  apart := by
    have located := mapM_target_of_setEdit planned
    have pairwise := separate_of_validate valid (by simpa [targets] using located)
    exact (List.pairwise_map (f := Edit.target)).mp pairwise
  extended _ _ := AttributeValue.Extends.refl _ _

/-- An accepted clause of values to be set is accepted in any other order and comes to the same, or
fails in both, if actions that go past the end of one list follow each other alike. -/
theorem apply_sets_reorder (ordered : item.Ordered) (values : Item.Ordered bindings.values)
    (valid : (⟨sets, [], [], []⟩ : Update).validate bindings names = .ok ())
    (same : others.Perm sets)
    (inOrder : ∀ first second, [first, second].Sublist others →
      Competing bindings item first second → [first, second].Sublist sets) :
    (⟨others, [], [], []⟩ : Update).validate bindings names = .ok () ∧
      ∀ new, (⟨others, [], [], []⟩ : Update).apply bindings item = .ok new ↔
        (⟨sets, [], [], []⟩ : Update).apply bindings item = .ok new := by
  refine ⟨validate_perm (by simpa [targets] using same.map Prod.fst) valid, fun new => ?_⟩
  have agree : ∀ {edits otherEdits : List Edit},
      sets.mapM (setEdit bindings item) = .ok edits →
      others.mapM (setEdit bindings item) = .ok otherEdits →
      Edit.makeAll? otherEdits (.map item) = Edit.makeAll? edits (.map item) := by
    intro edits otherEdits planned otherPlanned
    have sameEdits : otherEdits.Perm edits := by
      obtain ⟨_, again, perm⟩ := mapM_perm planned same
      cases otherPlanned.symm.trans again
      exact perm
    refine (writes_of_setEdits ordered values valid planned).reorder sameEdits ?_
    intro first second pair compete
    obtain ⟨picked, below, made⟩ := (mapM_sublist otherPlanned).mp pair
    refine (mapM_sublist planned).mpr ⟨picked, ?_, made⟩
    obtain ⟨one, _, rfl, oneEdit, rest⟩ := List.map_eq_cons_iff.mp (mapM_ok_iff.mp made)
    obtain ⟨two, _, rfl, twoEdit, rest⟩ := List.map_eq_cons_iff.mp rest
    cases List.map_eq_nil_iff.mp rest
    obtain ⟨_, _, oneAt, _⟩ := setEdit_ok_iff.mp oneEdit
    obtain ⟨_, _, twoAt, _⟩ := setEdit_ok_iff.mp twoEdit
    exact inOrder one two below ⟨_, _, oneAt, twoAt, compete⟩
  rw [apply_sets, apply_sets, foldlM_applySet_iff, foldlM_applySet_iff]
  constructor
  · rintro ⟨otherEdits, otherPlanned, made⟩
    obtain ⟨edits, planned, _⟩ := mapM_perm otherPlanned same.symm
    exact ⟨edits, planned, agree planned otherPlanned ▸ made⟩
  · rintro ⟨edits, planned, made⟩
    obtain ⟨otherEdits, otherPlanned, _⟩ := mapM_perm planned same
    exact ⟨otherEdits, otherPlanned, (agree planned otherPlanned).symm ▸ made⟩

theorem apply_sets_reorder_beside_ends :
    let last (position : Nat) (text : String) : Path × SetValue :=
      (⟨.literal "l", [.index position]⟩, .operand (.value text))
    let entry : Path × SetValue :=
      (⟨.literal "m", [.field (.placeholder "#k")]⟩, .operand (.path ⟨.literal "l", [.index 0]⟩))
    let sets := [last 7 ":a", entry, last 5 ":b"]
    let others := [entry, last 7 ":a", last 5 ":b"]
    let bindings : Bindings := ⟨[("#k", "k")], [(":a", .string "a"), (":b", .string "b")]⟩
    let item : Item := [("l", .list [.string "x"]), ("m", .map []), ("pk", .string "k")]
    let new : Item := [("l", .list [.string "x", .string "a", .string "b"]),
      ("m", .map [("k", .string "x")]), ("pk", .string "k")]
    item.Ordered ∧ Item.Ordered bindings.values ∧
      (⟨sets, [], [], []⟩ : Update).validate bindings ["pk"] = .ok () ∧ others.Perm sets ∧
      (∀ first second, [first, second].Sublist others →
        Competing bindings item first second → [first, second].Sublist sets) ∧
      (⟨others, [], [], []⟩ : Update).validate bindings ["pk"] = .ok () ∧
      (⟨others, [], [], []⟩ : Update).apply bindings item = .ok new ∧
      (⟨sets, [], [], []⟩ : Update).apply bindings item = .ok new := by
  intro last entry sets others bindings item new
  have ordered : item.Ordered := by decide
  have values : Item.Ordered bindings.values := by decide
  have valid : (⟨sets, [], [], []⟩ : Update).validate bindings ["pk"] = .ok () := rfl
  have same : others.Perm sets := List.Perm.swap _ _ _
  have ends : [last 7 ":a", last 5 ":b"].Sublist sets := .cons_cons _ (.cons _ (.refl _))
  have free : ∀ second, ¬Competing bindings item entry second := fun second =>
    not_competing_of_fields (by simp [entry])
  have pairwise : others.Pairwise fun first second =>
      Competing bindings item first second → [first, second].Sublist sets := by
    simp [others, free, ends]
  have inOrder := fun first second pair => @List.Pairwise.forall_sublist _ others _ pairwise
    first second pair
  obtain ⟨accepted, agree⟩ := apply_sets_reorder ordered values valid same inOrder
  have applied : (⟨sets, [], [], []⟩ : Update).apply bindings item = .ok new := by
    rw [apply_sets]
    rfl
  exact ⟨ordered, values, valid, same, inOrder, accepted, (agree new).mpr applied, applied⟩

/-- Written in the other order, the second value takes the element that the first one has put at the
end of the list. -/
theorem apply_sets_overwritten :
    let last (position : Nat) (text : String) : Path × SetValue :=
      (⟨.literal "l", [.index position]⟩, .operand (.value text))
    let bindings : Bindings := ⟨[], [(":a", .string "a"), (":b", .string "b")]⟩
    let item : Item := [("l", .list [.string "x"]), ("pk", .string "k")]
    let ascending : Update := ⟨[last 1 ":a", last 2 ":b"], [], [], []⟩
    let descending : Update := ⟨[last 2 ":b", last 1 ":a"], [], [], []⟩
    ascending.validate bindings ["pk"] = .ok () ∧ descending.validate bindings ["pk"] = .ok () ∧
      descending.set.Perm ascending.set ∧
      ascending.apply bindings item =
        .ok [("l", .list [.string "x", .string "a", .string "b"]), ("pk", .string "k")] ∧
      descending.apply bindings item =
        .ok [("l", .list [.string "x", .string "a"]), ("pk", .string "k")] ∧
      descending.apply bindings item ≠ ascending.apply bindings item := by
  intro last bindings item ascending descending
  have kept : ascending.apply bindings item =
      .ok [("l", .list [.string "x", .string "a", .string "b"]), ("pk", .string "k")] := by
    rw [apply_sets]
    rfl
  have lost : descending.apply bindings item =
      .ok [("l", .list [.string "x", .string "a"]), ("pk", .string "k")] := by
    rw [apply_sets]
    rfl
  refine ⟨rfl, rfl, List.Perm.swap _ _ _, kept, lost, ?_⟩
  rw [kept, lost]
  simp

end Update
end ItemStore
