import ItemStore.Proofs.Expression.PathTrees
import ItemStore.Proofs.Expression.UpdateTasks

/-!
Projections. The result has the parts at the paths and nothing else, whatever the order of the paths
and however they overlap.
-/

namespace ItemStore

section Ways

variable {ways : List (List Segment)} {way : List Segment}

theorem remaining_append (rest : List Segment) :
    remaining ways (way ++ rest) = remaining (remaining ways way) rest := by
  induction way generalizing ways with
  | nil => rfl
  | cons segment below ih => exact ih

theorem nil_notMem_remaining (uncovered : ¬Covered ways way) : [] ∉ remaining ways way := by
  intro member
  have here := mem_remaining.mp member
  rw [List.append_nil] at here
  exact uncovered ⟨way, here, List.prefix_refl way⟩

end Ways

variable {item : Item} {locations others : List Location} {location : Location}

namespace Location

theorem nil_notMem_ways : [] ∉ locations.map way := by
  intro member
  obtain ⟨location, _, empty⟩ := List.mem_map.mp member
  exact location.way_ne_nil empty

theorem exists_of_corresponds {place : List Segment}
    (corresponds : List.Forall₂ Segment.Corresponds location.way place) :
    ∃ origin : Location, origin.way = place := by
  obtain ⟨_, rest, first, _, rfl⟩ := List.forall₂_cons_left_iff.mp corresponds
  cases first
  exact ⟨⟨location.top, rest⟩, rfl⟩

theorem covered_ways {place : List Segment} :
    Covered (locations.map way) place ↔ ∃ asked ∈ locations, asked.way <+: place := by
  simp only [Covered, List.mem_map, exists_exists_and_eq_and]

end Location

namespace Item

theorem project_eq_restrictEntries (ordered : item.Ordered) :
    item.project (.ofLocations locations) =
      AttributeValue.restrictEntries (locations.map Location.way) item := by
  have followed := PathTree.part?_eq_restrict (.map item) (AttributeValue.ordered_map.mpr ordered)
    (PathTree.ordered_ofLocations locations) fun _ => PathTree.asks_ofLocations locations
  rw [AttributeValue.restrict_map Location.nil_notMem_ways] at followed
  cases tree : PathTree.ofLocations locations with
  | whole =>
      have covered : Covered (locations.map Location.way) [] :=
        (PathTree.asks_ofLocations locations).mp (tree ▸ trivial)
      exact absurd (covered_nil.mp covered) Location.nil_notMem_ways
  | children trees =>
      rw [tree, PathTree.part?] at followed
      rw [project]
      split at followed <;> split at followed
      · rename_i empty none
        rw [List.isEmpty_iff.mp empty, List.isEmpty_iff.mp none]
      · cases followed
      · cases followed
      · exact AttributeValue.map.inj (Option.some.inj followed)

theorem project_congr (ordered : item.Ordered)
    (alike : CoverAlike (locations.map Location.way) (others.map Location.way)) :
    item.project (.ofLocations locations) = item.project (.ofLocations others) := by
  rw [project_eq_restrictEntries ordered, project_eq_restrictEntries ordered]
  exact AttributeValue.restrictEntries_congr item (alike.below Location.nil_notMem_ways)

theorem at?_project (ordered : item.Ordered) (location : Location) :
    (item.project (.ofLocations locations)).at? location =
      ((AttributeValue.map item).restrict (locations.map Location.way)).bind
        fun part => part.at? location.way := by
  rw [AttributeValue.restrict_map Location.nil_notMem_ways, ← project_eq_restrictEntries ordered]
  split
  · rename_i empty
    rw [List.isEmpty_iff.mp empty]
    rfl
  · rfl

def keptElements (locations : List Location) (way : List Segment)
    (elements : List AttributeValue) : List AttributeValue :=
  let named := (List.range elements.length).filter fun position =>
    locations.any fun asked => (way ++ [Segment.index position]).isPrefixOf asked.way
  named.filterMap fun position => elements[position]?.bind fun element =>
    element.restrict (remaining (locations.map Location.way) (way ++ [.index position]))

theorem restrictElements_remaining (elements : List AttributeValue) (way : List Segment) :
    AttributeValue.restrictElements (remaining (locations.map Location.way) way) 0 elements =
      keptElements locations way elements := by
  rw [AttributeValue.restrictElements_named, keptElements]
  congr 1
  · funext position
    rw [remaining_append]
    rfl
  · refine List.filter_congr fun position _ => ?_
    rw [Bool.eq_iff_iff, List.any_eq_true, List.any_eq_true]
    constructor
    · rintro ⟨rest, member, first⟩
      obtain ⟨asked, listed, same⟩ := List.mem_map.mp (mem_remaining.mp member)
      obtain ⟨tail, rfl⟩ := List.head?_eq_some_iff.mp (eq_of_beq first)
      refine ⟨asked, listed, List.isPrefixOf_iff_prefix.mpr ⟨tail, ?_⟩⟩
      rw [same, List.append_assoc, List.singleton_append]
    · rintro ⟨asked, listed, start⟩
      obtain ⟨tail, same⟩ := List.isPrefixOf_iff_prefix.mp start
      rw [List.append_assoc, List.singleton_append] at same
      have member := List.mem_map.mpr ⟨asked, listed, same.symm⟩
      exact ⟨.index position :: tail, mem_remaining.mpr member, beq_self_eq_true _⟩

/-- The result has the parts of the item at the locations, and nothing else. -/
structure Projects (item : Item) (locations : List Location) (result : Item) : Prop where
  requested : ∀ location ∈ locations, location.Keyed → result.at? location = item.at? location
  within : ∀ location : Location, location.Keyed → (result.at? location).isSome = true →
    (∃ asked ∈ locations, asked.way <+: location.way ∨ location.way <+: asked.way) ∧
      (item.at? location).isSome = true
  lists : ∀ location : Location, location.Keyed → ∀ elements,
    item.at? location = some (.list elements) →
    (∀ asked ∈ locations, ¬asked.way <+: location.way) →
    let kept := keptElements locations location.way elements
    result.at? location = if kept.isEmpty then none else some (.list kept)
  hollow : ∀ (location : Location) (part : AttributeValue), result.at? location = some part →
    part.Hollow → ∃ origin : Location, List.Forall₂ Segment.Corresponds location.way origin.way ∧
      item.at? origin = some part ∧ ∃ asked ∈ locations, asked.way <+: origin.way

theorem project_projects (ordered : item.Ordered) :
    item.Projects locations (item.project (.ofLocations locations)) := by
  have whole := AttributeValue.ordered_map.mpr ordered
  constructor
  case requested =>
    intro location member keyed
    rw [at?_project ordered]
    exact AttributeValue.at?_restrict_of_covered whole keyed.way
      (Location.covered_ways.mpr ⟨location, member, List.prefix_refl _⟩)
  case within =>
    intro location keyed stands
    obtain ⟨part, left⟩ := Option.isSome_iff_exists.mp stands
    rw [at?_project ordered] at left
    obtain ⟨⟨way, member, near⟩, found, here⟩ :=
      AttributeValue.at?_of_at?_restrict whole keyed.way left
    obtain ⟨asked, listed, rfl⟩ := List.mem_map.mp member
    exact ⟨⟨asked, listed, near⟩, Option.isSome_iff_exists.mpr ⟨found, here⟩⟩
  case lists =>
    intro location keyed elements here outside
    have uncovered : ¬Covered (locations.map Location.way) location.way := by
      simpa [Location.covered_ways] using outside
    have remains := AttributeValue.at?_restrict_of_not_covered whole keyed.way uncovered
    rw [at?_map, here, Option.bind_some,
      AttributeValue.restrict_list (nil_notMem_remaining uncovered),
      restrictElements_remaining] at remains
    exact (at?_project ordered location).trans remains
  case hollow =>
    intro location part left hollow
    rw [at?_project ordered] at left
    obtain ⟨way, corresponds, ⟨covered, here⟩ | ⟨uncovered, remains⟩⟩ :=
      AttributeValue.origin_of_restrict whole left
    · obtain ⟨origin, rfl⟩ := Location.exists_of_corresponds corresponds
      exact ⟨origin, corresponds, here, Location.covered_ways.mp covered⟩
    · obtain ⟨found, _, kept⟩ := Option.bind_eq_some_iff.mp remains
      exact absurd hollow
        (AttributeValue.not_hollow_of_restrict (nil_notMem_remaining uncovered) kept)

end Item

namespace Projection

variable {paths more : List Path} {bindings : Bindings} {result : Item}

theorem mem_located (located : paths.mapM bindings.location = .ok locations) :
    location ∈ locations ↔ ∃ path ∈ paths, bindings.location path = .ok location := by
  constructor
  · exact mapM_source located location
  · rintro ⟨path, member, placed⟩
    obtain ⟨other, listed, found⟩ := mapM_reaches located path member
    cases placed.symm.trans found
    exact listed

/-- Paths that ask for the same places, each of them at or below another's, have one result. -/
theorem apply_congr (ordered : item.Ordered)
    (moreLocated : more.mapM bindings.location = .ok others)
    (alike : CoverAlike (others.map Location.way) (locations.map Location.way)) :
    apply more bindings item = .ok (item.project (.ofLocations locations)) := by
  rw [apply, moreLocated]
  exact congrArg Except.ok (Item.project_congr ordered alike)

theorem apply_same (ordered : item.Ordered) (located : paths.mapM bindings.location = .ok locations)
    (same : ∀ path, path ∈ more ↔ path ∈ paths) :
    apply more bindings item = .ok (item.project (.ofLocations locations)) := by
  have each : ∀ path ∈ more, ∃ location, bindings.location path = .ok location := by
    intro path member
    obtain ⟨location, _, placed⟩ := mapM_reaches located path ((same path).mp member)
    exact ⟨location, placed⟩
  obtain ⟨others, moreLocated⟩ := mapM_total each
  have members (location : Location) : location ∈ others ↔ location ∈ locations := by
    simp only [mem_located located, mem_located moreLocated, same]
  have ways (way : List Segment) :
      way ∈ others.map Location.way ↔ way ∈ locations.map Location.way := by
    simp only [List.mem_map, members]
  exact apply_congr ordered moreLocated
    ⟨fun way member => ⟨way, (ways way).mp member, List.prefix_refl way⟩,
      fun way member => ⟨way, (ways way).mpr member, List.prefix_refl way⟩⟩

theorem apply_below (ordered : item.Ordered)
    (located : paths.mapM bindings.location = .ok locations) {longer : Path} {below : Location}
    (placed : bindings.location longer = .ok below)
    (covered : ∃ above ∈ locations, above.way <+: below.way) :
    apply (longer :: paths) bindings item = .ok (item.project (.ofLocations locations)) := by
  have moreLocated : (longer :: paths).mapM bindings.location = .ok (below :: locations) := by
    rw [List.mapM_cons, placed, located]
    rfl
  refine apply_congr ordered moreLocated ⟨fun way member => ?_, fun way member =>
    ⟨way, List.mem_cons_of_mem _ member, List.prefix_refl way⟩⟩
  rcases List.mem_cons.mp member with rfl | listed
  · exact Location.covered_ways.mpr covered
  · exact ⟨way, listed, List.prefix_refl way⟩

/-- A projection that succeeds returns exactly the parts that are asked for. The order of the paths,
paths that are repeated and paths below others make no difference. -/
theorem apply_exact (ordered : item.Ordered) (ok : apply paths bindings item = .ok result) :
    ∃ locations, paths.mapM bindings.location = .ok locations ∧ item.Projects locations result ∧
      (∀ others : List Path, (∀ path, path ∈ others ↔ path ∈ paths) →
        apply others bindings item = .ok result) ∧
      ∀ (longer : Path) (below : Location), bindings.location longer = .ok below →
        (∃ above ∈ locations, above.way <+: below.way) →
        apply (longer :: paths) bindings item = .ok result := by
  obtain ⟨locations, located, rfl⟩ := map_ok ok
  exact ⟨locations, located, Item.project_projects ordered,
    fun _ same => apply_same ordered located same,
    fun _ _ placed covered => apply_below ordered located placed covered⟩

/-- Elements asked for from the last position on, twice, through a placeholder, past the end, as a
whole and in part; an empty map that is asked for, and a map of which nothing is left. -/
theorem apply_exact_overlapping :
    let path (name : NameRef) (steps : List PathStep) : Path := ⟨name, steps⟩
    let list := NameRef.placeholder "#l"
    let paths := [path list [.index 2], path list [.index 1, .index 1],
      path (.literal "l") [.index 1, .index 0], path list [.index 2, .field (.literal "a")],
      path list [.index 9], path (.literal "m") [.field (.literal "e")],
      path (.literal "n") [.field (.literal "x")], path list [.index 2]]
    let bindings : Bindings := ⟨[("#l", "l")], []⟩
    let item : Item := [("l", .list [.string "x", .list [.string "p", .string "q", .string "r"],
      .map [("a", .string "y"), ("b", .string "z")]]),
      ("m", .map [("d", .null true), ("e", .map [])]), ("n", .map [("y", .null true)])]
    let result : Item := [("l", .list [.list [.string "p", .string "q"],
      .map [("a", .string "y"), ("b", .string "z")]]), ("m", .map [("e", .map [])])]
    item.Ordered ∧ apply paths bindings item = .ok result ∧
      apply paths.reverse bindings item = .ok result ∧
      result.at? ⟨"m", [.key "e"]⟩ = item.at? ⟨"m", [.key "e"]⟩ := by
  intro path list paths bindings item result
  have ordered : item.Ordered := by decide
  have ok : apply paths bindings item = .ok result := rfl
  obtain ⟨locations, located, exact, same, _⟩ := apply_exact ordered ok
  cases located
  refine ⟨ordered, ok, same paths.reverse fun _ => List.mem_reverse, exact.requested _ ?_ ?_⟩
  · simp
  · simp [Location.Keyed]

end Projection
end ItemStore
