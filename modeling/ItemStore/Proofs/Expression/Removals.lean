import ItemStore.Proofs.Expression.Simultaneous
import ItemStore.Proofs.Value.Removals

/-!
Updates that only remove. Every part that a path names in the item as it was goes, and nothing else
does, however the paths are written and nested.
-/

namespace ItemStore

namespace Item

/-- The item without the parts at the given places. -/
def without (item : Item) (locations : List Location) : Item :=
  AttributeValue.withoutEntries (fun way => (locations.map Location.way).contains way) item

theorem without_perm {item : Item} {locations others : List Location}
    (same : locations.Perm others) : item.without locations = item.without others := by
  have contained : (fun way => (locations.map Location.way).contains way) =
      fun way => (others.map Location.way).contains way := by
    funext way
    rw [Bool.eq_iff_iff, List.contains_iff_mem, List.contains_iff_mem,
      (same.map Location.way).mem_iff]
  rw [without, without, contained]

theorem foldl_takeOut_map (item : Item) (locations : List Location) :
    AttributeValue.map (locations.foldl takeOut item) =
      (locations.map Location.way).foldl (fun value way => AttributeValue.takeOut way value)
        (.map item) := by
  induction locations generalizing item with
  | nil => rfl
  | cons location rest ih => rw [List.foldl_cons, ih, List.map_cons, List.foldl_cons, takeOut_map]

end Item

namespace Update

/-- Places that do not meet are removed all together. -/
theorem applyRemovals_eq_without {item : Item} {locations : List Location}
    (ordered : item.Ordered) (apart : locations.Pairwise fun a b => Apart a.way b.way) :
    applyRemovals item locations = item.without locations := by
  have moved := List.mergeSort_perm locations fun a b => (compare b a).isLE
  have sorted := Edit.pairwise_highestFirst locations
  rw [applyRemovals, ← Item.without_perm moved]
  have separate := (moved.pairwise_iff Apart.symm).mpr apart
  generalize locations.mergeSort (fun a b => (compare b a).isLE) = sequence at sorted separate
  have taken := AttributeValue.foldl_takeOut_eq_without (AttributeValue.ordered_map.mpr ordered)
    (fun way member => by
      obtain ⟨location, _, rfl⟩ := List.mem_map.mp member
      exact location.way_ne_nil)
    (List.pairwise_map.mpr separate) (List.pairwise_map.mpr sorted)
  rw [← Item.foldl_takeOut_map, AttributeValue.without] at taken
  exact AttributeValue.map.inj taken

/-- An accepted update that only removes succeeds, and leaves the item without the parts at the
places that its paths name in the item as it was. -/
theorem apply_removals {bindings : Bindings} {names : List String} {item : Item}
    {paths : List Path} (ordered : item.Ordered)
    (valid : (⟨[], paths, [], []⟩ : Update).validate bindings names = .ok ()) :
    ∃ locations, paths.mapM bindings.location = .ok locations ∧
      (⟨[], paths, [], []⟩ : Update).apply bindings item = .ok (item.without locations) := by
  obtain ⟨locations, placed⟩ := targets_located valid
  have apart := separate_of_validate valid placed
  have located : paths.mapM bindings.location = .ok locations := by simpa [targets] using placed
  refine ⟨locations, located, ?_⟩
  rw [← applyRemovals_eq_without ordered apart, apply]
  change Except.bind (paths.mapM bindings.location) _ = _
  rw [located]
  rfl

theorem apply_removals_nested :
    let place (position : Nat) (steps : List PathStep) : Path :=
      ⟨.literal "l", .index position :: steps⟩
    let paths := [place 0 [], place 1 [.index 0], place 2 [.field (.placeholder "#a")],
      place 1 [.index 2], place 7 [], ⟨.literal "m", []⟩]
    let bindings : Bindings := ⟨[("#a", "a")], []⟩
    let item : Item := [("l", .list [.string "x", .list [.string "p", .string "q", .string "r"],
      .map [("a", .string "y"), ("b", .string "z")]]), ("pk", .string "k")]
    let left : Item := [("l", .list [.list [.string "q"], .map [("b", .string "z")]]),
      ("pk", .string "k")]
    item.Ordered ∧ (⟨[], paths, [], []⟩ : Update).validate bindings ["pk"] = .ok () ∧
      (⟨[], paths, [], []⟩ : Update).apply bindings item = .ok left := by
  intro place paths bindings item left
  have ordered : item.Ordered := by decide
  have valid : (⟨[], paths, [], []⟩ : Update).validate bindings ["pk"] = .ok () := rfl
  obtain ⟨locations, located, applied⟩ := apply_removals ordered valid
  cases located
  exact ⟨ordered, valid, applied⟩

end Update
end ItemStore
