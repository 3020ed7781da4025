import ItemStore.Dict.Lemmas
import ItemStore.Expression.Path
import ItemStore.Expression.Update.Apply

/-!
Properties of values that lists and maps have from their parts. What has such a property keeps it
when parts of it are read, replaced by values that have it, or taken out.
-/

namespace ItemStore

structure Inherited (shape : Item → Prop) (holds : AttributeValue → Prop) : Prop where
  list {elements : List AttributeValue} : holds (.list elements) ↔ ∀ value ∈ elements, holds value
  map {entries : Item} : holds (.map entries) ↔ shape entries ∧ ∀ entry ∈ entries, holds entry.2
  insert {entries : Item} (name : String) (value : AttributeValue) :
    shape entries → shape (Dict.insert entries name value)
  erase {entries : Item} (name : String) : shape entries → shape (Dict.erase entries name)

namespace Inherited

variable {shape : Item → Prop} {holds : AttributeValue → Prop} (inherited : Inherited shape holds)
  {item placed : Item} {value : AttributeValue}
include inherited

theorem get? (has : holds (.map item)) {name : String} (found : item.get? name = some value) :
    holds value :=
  (inherited.map.mp has).2 _ (Dict.mem_of_get?_eq_some found)

theorem insertEntry (has : holds (.map item)) (name : String) (fits : holds value) :
    holds (.map (item.insert name value)) := by
  obtain ⟨shaped, entries⟩ := inherited.map.mp has
  refine inherited.map.mpr ⟨inherited.insert name value shaped, fun entry member => ?_⟩
  rcases Dict.mem_insert member with rfl | kept
  · exact fits
  · exact entries entry kept

theorem eraseEntry (has : holds (.map item)) (name : String) : holds (.map (item.erase name)) := by
  obtain ⟨shaped, entries⟩ := inherited.map.mp has
  exact inherited.map.mpr ⟨inherited.erase name shaped, fun entry member =>
    entries entry (List.mem_filter.mp member).1⟩

theorem getElem? {elements : List AttributeValue} (has : holds (.list elements)) {position : Nat}
    (found : elements[position]? = some value) : holds value :=
  inherited.list.mp has value (List.mem_of_getElem? found)

theorem at? : ∀ {value : AttributeValue} {way : List Segment} {found : AttributeValue},
    holds value → value.at? way = some found → holds found
  | value, [], found, has, same => by
      cases same
      exact has
  | .map entries, .key name :: rest, found, has, same => by
      obtain ⟨child, here, below⟩ := Option.bind_eq_some_iff.mp same
      exact at? (inherited.get? has here) below
  | .list elements, .index position :: rest, found, has, same => by
      obtain ⟨child, here, below⟩ := Option.bind_eq_some_iff.mp same
      exact at? (inherited.getElem? has here) below

theorem place? (fits : holds value) :
    ∀ {way : List Segment} {current : Option AttributeValue} {placed : AttributeValue},
      (∀ found, current = some found → holds found) →
        AttributeValue.place? value way current = some placed → holds placed
  | [], current, placed, _, ok => by
      simp only [AttributeValue.place?] at ok
      cases ok
      exact fits
  | .key name :: rest, some (.map entries), placed, has, ok => by
      obtain ⟨child, inner, rfl⟩ := Option.map_eq_some_iff.mp ok
      exact inherited.insertEntry (has _ rfl) name
        (place? fits (fun _ found => inherited.get? (has _ rfl) found) inner)
  | .index position :: rest, some (.list elements), placed, has, ok => by
      obtain ⟨child, inner, rfl⟩ := Option.map_eq_some_iff.mp ok
      have childHas := place? fits (fun _ found => inherited.getElem? (has _ rfl) found) inner
      have each := inherited.list.mp (has _ rfl)
      refine inherited.list.mpr fun element member => ?_
      split at member
      · rcases List.mem_or_eq_of_mem_set member with kept | rfl
        · exact each element kept
        · exact childHas
      · rcases List.mem_append.mp member with kept | last
        · exact each element kept
        · rw [List.mem_singleton.mp last]
          exact childHas

theorem modify {elements : List AttributeValue} {change : AttributeValue → AttributeValue}
    (has : holds (.list elements)) (keeps : ∀ value, holds value → holds (change value))
    (position : Nat) : holds (.list (elements.modify position change)) := by
  refine inherited.list.mpr fun value member => ?_
  obtain ⟨place, here⟩ := List.mem_iff_getElem?.mp member
  rw [List.getElem?_modify] at here
  obtain ⟨original, found, rfl⟩ := Option.map_eq_some_iff.mp here
  have originalHas := inherited.getElem? has found
  split
  · exact keeps original originalHas
  · exact originalHas

theorem takeOut (way : List Segment) : ∀ {value : AttributeValue}, holds value →
    holds (AttributeValue.takeOut way value) := by
  induction way with
  | nil =>
      intro value has
      simpa [AttributeValue.takeOut] using has
  | cons segment rest ih =>
      intro value has
      unfold AttributeValue.takeOut
      split
      · exact inherited.eraseEntry has _
      · exact inherited.list.mpr fun element member =>
          inherited.list.mp has element (List.mem_of_mem_eraseIdx member)
      · rename_i same
        cases same
        split
        · rename_i found
          exact inherited.insertEntry has _ (ih (inherited.get? has found))
        · exact has
      · rename_i same
        cases same
        exact inherited.modify has (fun _ => ih) _
      · exact has

/-! The same of items, which are edited as the maps that they are. -/

theorem itemAt? (has : holds (.map item)) {location : Location}
    (found : item.at? location = some value) : holds value := by
  obtain ⟨top, here, below⟩ := Option.bind_eq_some_iff.mp found
  exact inherited.at? (inherited.get? has here) below

theorem place (has : holds (.map item)) {location : Location} (fits : holds value)
    (ok : item.place location value = .ok placed) : holds (.map placed) := by
  rw [Item.place] at ok
  split at ok
  · rename_i child inner
    cases ok
    exact inherited.insertEntry has _
      (inherited.place? fits (fun _ found => inherited.get? has found) inner)
  · cases ok

theorem itemTakeOut (has : holds (.map item)) (location : Location) :
    holds (.map (item.takeOut location)) := by
  rw [Item.takeOut]
  split
  · exact inherited.eraseEntry has _
  · split
    · rename_i found
      exact inherited.insertEntry has _ (inherited.takeOut _ (inherited.get? has found))
    · exact has

end Inherited
end ItemStore
