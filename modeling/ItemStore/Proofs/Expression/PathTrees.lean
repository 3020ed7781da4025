import ItemStore.Expression.Projection
import ItemStore.Proofs.Value.Restriction

/-!
The tree that the paths of a projection are merged into. Whatever the order, it asks for the places
at and below the paths, and what it keeps of a value are the parts at the paths.
-/

namespace ItemStore

theorem filterMap_eq_of_ascending {α : Type} {a b : List Nat} {found : Nat → Option α}
    (ascendingA : a.Pairwise (· < ·)) (ascendingB : b.Pairwise (· < ·))
    (same : ∀ position, (found position).isSome = true → (position ∈ a ↔ position ∈ b)) :
    a.filterMap found = b.filterMap found := by
  have only (positions : List Nat) : positions.filterMap found =
      (positions.filter fun position => (found position).isSome).filterMap found := by
    rw [List.filterMap_filter]
    refine List.filterMap_congr fun position _ => ?_
    cases found position <;> rfl
  have sortedA := ascendingA.filter fun position => (found position).isSome
  have sortedB := ascendingB.filter fun position => (found position).isSome
  have perm := (List.perm_ext_iff_of_nodup (sortedA.imp Nat.ne_of_lt)
    (sortedB.imp Nat.ne_of_lt)).mpr fun position => by
      simp only [List.mem_filter]
      exact and_congr_left (same position)
  rw [only a, only b, perm.eq_of_pairwise (fun x y _ _ less more => by omega) sortedA sortedB]

namespace PathTree

inductive Ordered : PathTree → Prop
  | whole : Ordered .whole
  | children {trees : List (Segment × PathTree)} (ascending : Dict.Ascending trees)
      (each : ∀ entry ∈ trees, Ordered entry.2) : Ordered (.children trees)

def Asks : PathTree → List Segment → Prop
  | .whole, _ => True
  | .children _, [] => False
  | .children trees, segment :: rest =>
      ∃ tree, Dict.get? trees segment = some tree ∧ tree.Asks rest

variable {tree : PathTree} {trees : List (Segment × PathTree)} {way place : List Segment}

theorem Ordered.ascending (ordered : (PathTree.children trees).Ordered) :
    Dict.Ascending trees := by
  cases ordered with
  | children ascending _ => exact ascending

theorem Ordered.child (ordered : (PathTree.children trees).Ordered) {segment : Segment}
    (here : Dict.get? trees segment = some tree) : tree.Ordered := by
  cases ordered with
  | children _ each => exact each _ (Dict.mem_of_get?_eq_some here)

theorem ordered_empty : (PathTree.children []).Ordered :=
  .children Dict.ascending_nil nofun

theorem ordered_insert (ordered : tree.Ordered) : (tree.insert way).Ordered := by
  have placed {trees : List (Segment × PathTree)} {segment : Segment} {below : PathTree}
      (outer : (PathTree.children trees).Ordered) (inner : below.Ordered) :
      (PathTree.children (Dict.insert trees segment below)).Ordered := by
    cases outer with
    | children ascending each =>
        refine .children (Dict.ascending_insert ascending _ _) fun entry member => ?_
        rcases Dict.mem_insert member with rfl | there
        · exact inner
        · exact each entry there
  induction way generalizing tree with
  | nil => cases tree <;> exact ordered
  | cons segment rest ih =>
      cases tree with
      | whole => exact .whole
      | children trees =>
          cases rest with
          | nil => exact placed ordered .whole
          | cons next rest =>
              refine placed ordered (ih ?_)
              cases here : Dict.get? trees segment with
              | none => exact ordered_empty
              | some child => exact ordered.child here

theorem asks_insert (more : way ≠ []) : (tree.insert way).Asks place ↔
    tree.Asks place ∨ way <+: place := by
  induction way generalizing tree place with
  | nil => exact absurd rfl more
  | cons segment rest ih =>
      cases tree with
      | whole => simp [insert, Asks]
      | children trees =>
          cases place with
          | nil => cases rest <;> simp [insert, Asks]
          | cons first place =>
              have here (below : PathTree) :
                  (PathTree.children (Dict.insert trees segment below)).Asks (segment :: place) ↔
                    below.Asks place := by
                simp [Asks, Dict.get?_insert_self]
              have beside (below : PathTree) (different : first ≠ segment) :
                  (PathTree.children (Dict.insert trees segment below)).Asks (first :: place) ↔
                    (PathTree.children trees).Asks (first :: place) := by
                simp only [Asks, Dict.get?_insert_of_ne different]
              by_cases same : first = segment
              · subst first
                rw [List.cons_prefix_cons, and_iff_right rfl]
                cases rest with
                | nil => simp [insert, here, Asks]
                | cons next rest =>
                    rw [insert, here, ih (List.cons_ne_nil _ _)]
                    refine or_congr_left ?_
                    cases found : Dict.get? trees segment with
                    | none => cases place <;> simp [Asks, found]
                    | some child => simp [Asks, found]
              · have apart : ¬segment :: rest <+: first :: place := fun start =>
                  same (List.cons_prefix_cons.mp start).1.symm
                rw [or_iff_left apart]
                cases rest with
                | nil => exact beside _ same
                | cons next rest => exact beside _ same

theorem ordered_ofLocations (locations : List Location) : (ofLocations locations).Ordered := by
  have merged : ∀ (locations : List Location) (tree : PathTree), tree.Ordered →
      (locations.foldl (fun tree location => tree.insert location.way) tree).Ordered := by
    intro locations
    induction locations with
    | nil => exact fun _ ordered => ordered
    | cons location rest ih => exact fun tree ordered => ih _ (ordered_insert ordered)
  exact merged locations _ ordered_empty

theorem asks_ofLocations (locations : List Location) :
    (ofLocations locations).Asks place ↔ Covered (locations.map Location.way) place := by
  have merged : ∀ (locations : List Location) (tree : PathTree),
      (locations.foldl (fun tree location => tree.insert location.way) tree).Asks place ↔
        tree.Asks place ∨ Covered (locations.map Location.way) place := by
    intro locations
    induction locations with
    | nil => simp [Covered]
    | cons location rest ih =>
        intro tree
        rw [List.foldl_cons, ih, asks_insert location.way_ne_nil, or_assoc]
        simp [Covered]
  refine (merged locations _).trans (or_iff_right ?_)
  cases place <;> simp [Asks]

/-! What a tree keeps. -/

theorem mem_keptEntries {entries : Item} {entry : String × AttributeValue}
    (member : entry ∈ keptEntries trees entries) : ∃ tree, (.key entry.1, tree) ∈ trees := by
  induction trees with
  | nil => cases member
  | cons first rest ih =>
      have later (there : entry ∈ keptEntries rest entries) :
          ∃ tree, (.key entry.1, tree) ∈ first :: rest := by
        obtain ⟨tree, listed⟩ := ih there
        exact ⟨tree, List.mem_cons_of_mem _ listed⟩
      obtain ⟨segment, tree⟩ := first
      cases segment with
      | index position => exact later member
      | key name =>
          rw [keptEntries] at member
          split at member
          · rcases List.mem_cons.mp member with rfl | there
            · exact ⟨tree, List.mem_cons_self⟩
            · exact later there
          · exact later member

theorem ascending_keptEntries {entries : Item} (ascending : Dict.Ascending trees) :
    Dict.Ascending (keptEntries trees entries) := by
  induction trees with
  | nil => exact Dict.ascending_nil
  | cons first rest ih =>
      obtain ⟨before, ordered⟩ := List.pairwise_cons.mp ascending
      obtain ⟨segment, tree⟩ := first
      cases segment with
      | index position => exact ih ordered
      | key name =>
          rw [keptEntries]
          split
          · refine List.pairwise_cons.mpr ⟨fun entry member => ?_, ih ordered⟩
            obtain ⟨other, listed⟩ := mem_keptEntries member
            exact before (.key entry.1, other) listed
          · exact ih ordered

theorem get?_keptEntries {entries : Item} (ascending : Dict.Ascending trees) (name : String) :
    Dict.get? (keptEntries trees entries) name = (Dict.get? entries name).bind fun value =>
      (Dict.get? trees (.key name)).bind fun tree => tree.part? value := by
  induction trees with
  | nil => simp [keptEntries]
  | cons first rest ih =>
      have later := ih (List.pairwise_cons.mp ascending).2
      obtain ⟨segment, tree⟩ := first
      cases segment with
      | index position =>
          have other : Segment.index position ≠ .key name := nofun
          simp only [keptEntries, later, Dict.get?_cons_of_ne other]
      | key bound =>
          rw [keptEntries]
          by_cases same : bound = name
          · subst bound
            simp only [Dict.get?_cons_self, Option.bind_some]
            split
            · rename_i part kept
              rw [Dict.get?_cons_self, kept]
            · rename_i gone
              rw [later, gone]
              simp [Dict.get?_tail ascending]
          · rw [Dict.get?_cons_of_ne fun equal => same (Segment.key.inj equal), ← later]
            split
            · exact Dict.get?_cons_of_ne same _ _
            · rfl

def positions (trees : List (Segment × PathTree)) : List Nat :=
  trees.filterMap fun entry =>
    match entry.1 with
    | .key _ => none
    | .index position => some position

theorem mem_positions {position : Nat} (here : Dict.get? trees (.index position) = some tree) :
    position ∈ positions trees :=
  List.mem_filterMap.mpr ⟨_, Dict.mem_of_get?_eq_some here, rfl⟩

theorem pairwise_positions (ascending : Dict.Ascending trees) :
    (positions trees).Pairwise (· < ·) := by
  refine List.Pairwise.filterMap _ ?_ ascending
  rintro ⟨first, _⟩ ⟨second, _⟩ less i here j there
  cases first <;> cases here
  cases second <;> cases there
  exact Nat.compare_eq_lt.mp less

theorem keptElements_positions {elements : List AttributeValue} {find : Segment → Option PathTree}
    (found : ∀ entry ∈ trees, find entry.1 = some entry.2) :
    keptElements trees elements = (positions trees).filterMap fun position =>
      elements[position]?.bind fun value =>
        (find (.index position)).bind fun tree => tree.part? value := by
  induction trees with
  | nil => rfl
  | cons first rest ih =>
      have later := ih fun entry member => found entry (List.mem_cons_of_mem _ member)
      have here := found first List.mem_cons_self
      obtain ⟨segment, tree⟩ := first
      cases segment with
      | key name => exact later
      | index position =>
          rw [keptElements, later]
          simp only [positions, List.filterMap_cons, here, Option.bind_some]
          cases elements[position]?.bind fun value => tree.part? value <;> rfl

/-- The elements that are kept of a list are in the order of their positions. -/
theorem keptElements_eq {elements : List AttributeValue} (ascending : Dict.Ascending trees) :
    keptElements trees elements = (List.range elements.length).filterMap fun position =>
      elements[position]?.bind fun value =>
        (Dict.get? trees (.index position)).bind fun tree => tree.part? value := by
  rw [keptElements_positions fun entry member => Dict.get?_eq_some_of_mem ascending member]
  refine filterMap_eq_of_ascending (pairwise_positions ascending) List.pairwise_lt_range
    fun position found => ?_
  obtain ⟨part, kept⟩ := Option.isSome_iff_exists.mp found
  obtain ⟨value, here, kept⟩ := Option.bind_eq_some_iff.mp kept
  obtain ⟨tree, listed, _⟩ := Option.bind_eq_some_iff.mp kept
  exact iff_of_true (mem_positions listed)
    (List.mem_range.mpr (List.getElem?_eq_some_iff.mp here).1)

/-! Trees that ask for the places at and below some ways. -/

section Restricts

variable {ways : List (List Segment)}

theorem keptEntries_eq_restrictEntries {entries : Item} (ascending : Dict.Ascending trees)
    (bound : Dict.Ascending entries)
    (each : ∀ name child, Dict.get? entries name = some child →
      ((Dict.get? trees (.key name)).bind fun tree => tree.part? child) =
        child.restrict (ways.filterMap (Segment.key name).below?)) :
    keptEntries trees entries = AttributeValue.restrictEntries ways entries := by
  refine Dict.ext_get? (ascending_keptEntries ascending)
    (AttributeValue.ascending_restrictEntries bound) fun name => ?_
  rw [get?_keptEntries ascending, AttributeValue.get?_restrictEntries bound]
  exact Option.bind_congr fun child here => each name child here

theorem keptElements_eq_restrictElements {elements : List AttributeValue}
    (ascending : Dict.Ascending trees)
    (each : ∀ position child, elements[position]? = some child →
      ((Dict.get? trees (.index position)).bind fun tree => tree.part? child) =
        child.restrict (ways.filterMap (Segment.index position).below?)) :
    keptElements trees elements = AttributeValue.restrictElements ways 0 elements := by
  rw [keptElements_eq ascending, AttributeValue.restrictElements_eq]
  refine List.filterMap_congr fun position _ => ?_
  rw [Nat.zero_add]
  exact Option.bind_congr fun child here => each position child here

variable (asks : ∀ place, (PathTree.children trees).Asks place ↔ Covered ways place)
include asks

theorem nil_notMem_of_asks : [] ∉ ways :=
  fun whole => (asks []).mpr (covered_nil.mpr whole)

theorem asks_child {segment : Segment} (here : Dict.get? trees segment = some tree) :
    tree.Asks place ↔ Covered (ways.filterMap segment.below?) place := by
  rw [covered_below (nil_notMem_of_asks asks), ← asks (segment :: place)]
  simp [Asks, here]

theorem below_eq_nil {segment : Segment} (missing : Dict.get? trees segment = none) :
    ways.filterMap segment.below? = [] := by
  refine List.eq_nil_iff_forall_not_mem.mpr fun rest member => ?_
  have asked := (asks (segment :: rest)).mpr ⟨_, mem_below.mp member, List.prefix_refl _⟩
  simp [Asks, missing] at asked

end Restricts

/-- A tree that asks for the places at and below some ways keeps the parts at these ways. -/
theorem part?_eq_restrict (value : AttributeValue) {tree : PathTree} {ways : List (List Segment)}
    (ordered : value.Ordered) (sorted : tree.Ordered)
    (asks : ∀ place, tree.Asks place ↔ Covered ways place) :
    tree.part? value = value.restrict ways := by
  cases tree with
  | whole =>
      have whole : [] ∈ ways := covered_nil.mp ((asks []).mp trivial)
      rw [AttributeValue.restrict_whole whole, part?]
  | children trees =>
      have outer := nil_notMem_of_asks asks
      have ascending := sorted.ascending
      have below (segment : Segment) (child : AttributeValue)
          (smaller : sizeOf child < sizeOf value) (here : value.child? segment = some child) :
          ((Dict.get? trees segment).bind fun tree => tree.part? child) =
            child.restrict (ways.filterMap segment.below?) := by
        cases found : Dict.get? trees segment with
        | some tree =>
            exact part?_eq_restrict child (AttributeValue.ordered_child? ordered here)
              (sorted.child found) fun _ => asks_child asks found
        | none =>
            rw [below_eq_nil asks found, AttributeValue.restrict_nil]
            rfl
      cases value with
      | map entries =>
          have bound := (AttributeValue.ordered_map.mp ordered).1
          have same : keptEntries trees entries = AttributeValue.restrictEntries ways entries := by
            refine keptEntries_eq_restrictEntries ascending bound fun name child here =>
              below (.key name) child ?_ here
            have size := List.sizeOf_lt_of_mem (Dict.mem_of_get?_eq_some here)
            simp only [Prod.mk.sizeOf_spec, AttributeValue.map.sizeOf_spec] at size ⊢
            omega
          rw [AttributeValue.restrict_map outer, part?, same]
      | list elements =>
          have same : keptElements trees elements =
              AttributeValue.restrictElements ways 0 elements := by
            refine keptElements_eq_restrictElements ascending fun position child here =>
              below (.index position) child ?_ here
            have size := List.sizeOf_lt_of_mem (List.mem_of_getElem? here)
            simp only [AttributeValue.list.sizeOf_spec]
            omega
          rw [AttributeValue.restrict_list outer, part?, same]
      | _ =>
          refine Eq.trans ?_ (AttributeValue.restrict_scalar outer ?_ ?_).symm
          · rfl
          all_goals simp
termination_by sizeOf value

end PathTree

end ItemStore
