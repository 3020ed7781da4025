import ItemStore.Proofs.Value.Inherited

/-!
Values whose maps are in order keep their order when parts of them are read, replaced or taken out.
-/

namespace ItemStore

namespace AttributeValue

mutual
def decideOrdered : (value : AttributeValue) → Decidable value.Ordered
  | .list elements => decideOrderedElements elements
  | .map entries =>
      @instDecidableAnd _ _ (Dict.decidableAscending entries) (decideOrderedEntries entries)
  | .string _ | .number _ | .binary _ | .boolean _ | .null _ | .stringSet _ | .numberSet _
  | .binarySet _ => .isTrue trivial

def decideOrderedElements : (elements : List AttributeValue) → Decidable (OrderedElements elements)
  | [] => .isTrue trivial
  | value :: rest => @instDecidableAnd _ _ (decideOrdered value) (decideOrderedElements rest)

def decideOrderedEntries :
    (entries : List (String × AttributeValue)) → Decidable (OrderedEntries entries)
  | [] => .isTrue trivial
  | (_, value) :: rest => @instDecidableAnd _ _ (decideOrdered value) (decideOrderedEntries rest)
end

theorem orderedElements_iff {elements : List AttributeValue} :
    OrderedElements elements ↔ ∀ value ∈ elements, value.Ordered := by
  induction elements with
  | nil => simp [OrderedElements]
  | cons value rest ih => simp [OrderedElements, ih]

theorem orderedEntries_iff {entries : List (String × AttributeValue)} :
    OrderedEntries entries ↔ ∀ entry ∈ entries, entry.2.Ordered := by
  induction entries with
  | nil => simp [OrderedEntries]
  | cons entry rest ih => simp [OrderedEntries, ih]

theorem ordered_map {entries : Item} : (map entries).Ordered ↔ entries.Ordered := by
  rw [Ordered, Item.Ordered]

theorem ordered_list {elements : List AttributeValue} :
    (list elements).Ordered ↔ ∀ value ∈ elements, value.Ordered := by
  rw [Ordered, orderedElements_iff]

theorem inherited_ordered : Inherited Dict.Ascending Ordered where
  list := ordered_list
  map := by
    intro entries
    rw [ordered_map, Item.Ordered, orderedEntries_iff]
  insert name value ascending := Dict.ascending_insert ascending name value
  erase name ascending := Dict.ascending_erase ascending name

end AttributeValue

namespace Item

open AttributeValue (inherited_ordered ordered_map)

instance decidableOrdered (item : Item) : Decidable item.Ordered :=
  @instDecidableAnd _ _ (Dict.decidableAscending item) (AttributeValue.decideOrderedEntries item)

theorem ordered_insert {item : Item} (ordered : item.Ordered) (name : String)
    {value : AttributeValue} (fits : value.Ordered) : Item.Ordered (item.insert name value) :=
  ordered_map.mp (inherited_ordered.insertEntry (ordered_map.mpr ordered) name fits)

theorem ordered_filter {item : Item} (ordered : item.Ordered)
    (keep : String × AttributeValue → Bool) : Item.Ordered (item.filter keep) :=
  ⟨ordered.1.filter _, AttributeValue.orderedEntries_iff.mpr fun entry member =>
    AttributeValue.orderedEntries_iff.mp ordered.2 entry (List.mem_filter.mp member).1⟩

theorem ordered_erase {item : Item} (ordered : item.Ordered) (name : String) :
    Item.Ordered (item.erase name) :=
  ordered_filter ordered _

end Item

namespace AttributeValue

def OrderedIf (value : Option AttributeValue) : Prop :=
  ∀ found, value = some found → found.Ordered

theorem ordered_at? {value : AttributeValue} {way : List Segment} (ordered : value.Ordered) :
    OrderedIf (value.at? way) :=
  fun _ found => inherited_ordered.at? ordered found

theorem ordered_takeOut (way : List Segment) {value : AttributeValue} (ordered : value.Ordered) :
    (takeOut way value).Ordered :=
  inherited_ordered.takeOut way ordered

theorem ordered_union? {a b union : AttributeValue} (ok : union? a b = some union) :
    union.Ordered := by
  unfold union? at ok
  split at ok <;> cases ok <;> trivial

theorem ordered_difference? {a b rest : AttributeValue} (ok : difference? a b = some rest) :
    rest.Ordered := by
  unfold difference? at ok
  split at ok <;> cases ok <;> trivial

end AttributeValue

namespace Item

open AttributeValue (inherited_ordered ordered_map)

theorem ordered_place {item placed : Item} (ordered : item.Ordered) {location : Location}
    {value : AttributeValue} (fits : value.Ordered) (ok : item.place location value = .ok placed) :
    placed.Ordered :=
  ordered_map.mp (inherited_ordered.place (ordered_map.mpr ordered) fits ok)

theorem ordered_takeOut {item : Item} (ordered : item.Ordered) (location : Location) :
    Item.Ordered (item.takeOut location) :=
  ordered_map.mp (inherited_ordered.itemTakeOut (ordered_map.mpr ordered) location)

end Item
end ItemStore
