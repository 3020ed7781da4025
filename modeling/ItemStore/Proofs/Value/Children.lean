import ItemStore.Proofs.Value.Ordered

/-!
One step down into a value: its children, and the value with a child changed. To change one child
disturbs another if the other one moves, as dropping an element of a list moves those after it, or
if both lie past the end of one list. Changes that do not disturb each other can be made in either
order.
-/

namespace ItemStore


def putAt {α : Type} (elements : List α) (position : Nat) (element : α) : List α :=
  if position < elements.length then elements.set position element else elements ++ [element]

section Elements

variable {α : Type} {elements : List α} {position other : Nat} {element last : α}

theorem length_putAt : (putAt elements position element).length =
    if position < elements.length then elements.length else elements.length + 1 := by
  unfold putAt
  split <;> simp

theorem getElem?_putAt_self (inside : position < elements.length) :
    (putAt elements position element)[position]? = some element := by
  rw [putAt, if_pos inside, List.getElem?_set_self inside]

theorem getElem?_putAt_of_ne (different : position ≠ other)
    (inside : other < elements.length ∨ position < elements.length) :
    (putAt elements position element)[other]? = elements[other]? := by
  unfold putAt
  split
  · exact List.getElem?_set_ne different
  · exact List.getElem?_append_left (by omega)

theorem putAt_putAt (inside : position < elements.length) :
    putAt (putAt elements position element) position last = putAt elements position last := by
  simp only [putAt, if_pos inside, List.length_set, List.set_set]

theorem putAt_comm (different : position ≠ other)
    (inside : position < elements.length ∨ other < elements.length) :
    putAt (putAt elements position element) other last =
      putAt (putAt elements other last) position element := by
  unfold putAt
  by_cases first : position < elements.length
  · by_cases second : other < elements.length
    · simp only [first, second, if_true, List.length_set]
      exact List.set_comm _ _ different
    · simp only [first, second, if_true, if_false, List.length_set, List.length_append]
      rw [if_pos (by omega), List.set_append_left _ _ first]
  · have second : other < elements.length := inside.resolve_left first
    simp only [first, second, if_true, if_false, List.length_set, List.length_append]
    rw [if_pos (by omega), List.set_append_left _ _ second]

theorem eraseIdx_putAt (inside : other < elements.length) (different : position ≠ other)
    (kept : other < position → elements.length ≤ position) :
    (putAt elements position element).eraseIdx other =
      putAt (elements.eraseIdx other) position element := by
  unfold putAt
  rw [List.length_eraseIdx_of_lt inside]
  by_cases stands : position < elements.length
  · rw [if_pos stands, if_pos (by omega), List.eraseIdx_set_gt (by omega)]
  · rw [if_neg stands, if_neg (by omega), List.eraseIdx_append_of_lt_length inside]

end Elements

namespace AttributeValue

def child? : AttributeValue → Segment → Option AttributeValue
  | .map entries, .key name => Dict.get? entries name
  | .list elements, .index position => elements[position]?
  | _, _ => none

def change? (value : AttributeValue) (segment : Segment) (child : Option AttributeValue) :
    Option AttributeValue :=
  match value, segment, child with
  | .map entries, .key name, some child => some (.map (Dict.insert entries name child))
  | .map entries, .key name, none =>
      if (Dict.get? entries name).isSome then some (.map (Dict.erase entries name)) else none
  | .list elements, .index position, some child => some (.list (putAt elements position child))
  | .list elements, .index position, none =>
      if position < elements.length then some (.list (elements.eraseIdx position)) else none
  | _, _, _ => none

def childDisturbs (drops : Bool) (first second : Segment) (value : AttributeValue) : Bool :=
  match first, second with
  | .index position, .index other =>
      if (value.child? second).isSome then drops && decide (position < other)
      else !drops && (value.child? first).isNone
  | _, _ => false

section Children

variable {value after : AttributeValue} {first second : Segment}
  {new other : Option AttributeValue}

theorem at?_cons (value : AttributeValue) (segment : Segment) (rest : List Segment) :
    value.at? (segment :: rest) = (value.child? segment).bind fun child => child.at? rest := by
  cases value <;> cases segment <;> rfl

theorem ordered_child? (ordered : value.Ordered) {child : AttributeValue}
    (here : value.child? first = some child) : child.Ordered := by
  have found : value.at? [first] = some child := by
    rw [at?_cons, here]
    rfl
  exact ordered_at? ordered child found

theorem ordered_change? (ordered : value.Ordered) (fits : OrderedIf new)
    (changed : value.change? first new = some after) : after.Ordered := by
  unfold change? at changed
  split at changed
  · cases changed
    exact ordered_map.mpr (Item.ordered_insert (ordered_map.mp ordered) _ (fits _ rfl))
  · split at changed <;> cases changed
    exact ordered_map.mpr (Item.ordered_erase (ordered_map.mp ordered) _)
  · cases changed
    refine ordered_list.mpr fun element member => ?_
    unfold putAt at member
    split at member
    · rcases List.mem_or_eq_of_mem_set member with kept | rfl
      · exact ordered_list.mp ordered element kept
      · exact fits _ rfl
    · rcases List.mem_append.mp member with kept | last
      · exact ordered_list.mp ordered element kept
      · rw [List.mem_singleton.mp last]
        exact fits _ rfl
  · split at changed <;> cases changed
    exact ordered_list.mpr fun element member =>
      ordered_list.mp ordered element (List.mem_of_mem_eraseIdx member)
  · cases changed

theorem child?_change?_of_ne (changed : value.change? first new = some after)
    (different : first ≠ second)
    (undisturbed : value.childDisturbs new.isNone first second = false) :
    after.child? second = value.child? second := by
  unfold change? at changed
  split at changed
  · cases changed
    cases second with
    | key other => exact Dict.get?_insert_of_ne (fun same => different (by rw [same])) _ _
    | index other => rfl
  · split at changed <;> cases changed
    cases second with
    | key other => exact Dict.get?_erase_of_ne (fun same => different (by rw [same])) _
    | index other => rfl
  · rename_i elements position child
    cases changed
    cases second with
    | key other => rfl
    | index other =>
        refine getElem?_putAt_of_ne (fun same => different (by rw [same])) ?_
        grind [childDisturbs, child?]
  · rename_i elements position
    split at changed <;> cases changed
    cases second with
    | key other => rfl
    | index other =>
        simp only [child?]
        grind [childDisturbs, child?]
  · cases changed

theorem child?_change?_self {child : AttributeValue} (stands : (value.child? first).isSome = true)
    (changed : value.change? first (some child) = some after) :
    after.child? first = some child := by
  unfold change? at changed
  split at changed
  · cases changed
    rename_i same
    cases same
    exact Dict.get?_insert_self _ _ _
  · rename_i same
    cases same
  · cases changed
    rename_i same
    cases same
    exact getElem?_putAt_self (by simpa [child?] using stands)
  · rename_i same
    cases same
  · cases changed

theorem isSome_child?_of_change? (changed : value.change? first none = some after) :
    (value.child? first).isSome = true := by
  unfold change? at changed
  split at changed
  · rename_i same
    cases same
  · rename_i stands
    split at changed
    · assumption
    · cases changed
  · rename_i same
    cases same
  · split at changed
    · rename_i inside
      simpa [child?] using inside
    · cases changed
  · cases changed

theorem change?_of_stands (stands : (value.child? first).isSome = true) (child : AttributeValue) :
    ∃ after, value.change? first (some child) = some after := by
  unfold child? at stands
  split at stands
  · exact ⟨_, rfl⟩
  · exact ⟨_, rfl⟩
  · cases stands

theorem change?_change?_self (ordered : value.Ordered) {child : AttributeValue}
    (stands : (value.child? first).isSome = true)
    (changed : value.change? first (some child) = some after) (last : Option AttributeValue) :
    after.change? first last = value.change? first last := by
  unfold child? at stands
  split at stands
  · rename_i entries name
    cases changed
    have ascending := (ordered_map.mp ordered).1
    cases last with
    | none => simp [change?, Dict.erase_insert_self ascending, Dict.get?_insert_self, stands]
    | some last => simp only [change?, Dict.insert_insert ascending]
  · rename_i elements position
    cases changed
    have inside : position < elements.length := by simpa using stands
    cases last with
    | none => simp [change?, inside, putAt, List.eraseIdx_set_eq]
    | some last => simp only [change?, putAt_putAt inside]
  · cases stands

theorem child?_change?_key {name : String} (changed : value.change? (.key name) new = some after) :
    after.child? (.key name) = new := by
  cases value with
  | map entries =>
      cases new with
      | some child =>
          cases changed
          exact Dict.get?_insert_self _ _ _
      | none =>
          simp only [change?] at changed
          split at changed <;> cases changed
          exact Dict.get?_erase_self _ _
  | _ => cases new <;> cases changed

theorem change?_comm_map {entries : Item} (ordered : entries.Ordered) {name another : String}
    (different : name ≠ another) :
    ((map entries).change? (.key name) new).bind (fun after => after.change? (.key another) other) =
      ((map entries).change? (.key another) other).bind
        fun after => after.change? (.key name) new := by
  cases new with
  | none =>
      cases other with
      | none =>
          simp only [change?]
          split <;> split <;>
            simp [*, Dict.get?_erase_of_ne different, Dict.get?_erase_of_ne (Ne.symm different),
              Dict.erase_comm entries name another]
      | some last =>
          simp only [change?]
          split <;>
            simp [*, Dict.get?_insert_of_ne different,
              Dict.erase_insert ordered.1 (Ne.symm different)]
  | some child =>
      cases other with
      | none =>
          simp only [change?]
          split <;>
            simp [*, Dict.get?_insert_of_ne (Ne.symm different),
              Dict.erase_insert ordered.1 different]
      | some last => simp [change?, Dict.insert_comm ordered.1 different]

theorem change?_list_none (elements : List AttributeValue) (position : Nat) :
    (list elements).change? (.index position) none =
      if position < elements.length then some (list (elements.eraseIdx position)) else none := rfl

theorem change?_list_some (elements : List AttributeValue) (position : Nat)
    (child : AttributeValue) : (list elements).change? (.index position) (some child) =
      some (list (putAt elements position child)) := rfl

theorem childDisturbs_list_drop {elements : List AttributeValue} {position another : Nat} :
    (list elements).childDisturbs true (.index position) (.index another) = false ↔
      (position < another → elements.length ≤ another) := by
  by_cases stands : another < elements.length
  · simp [childDisturbs, child?, stands]
    omega
  · simp [childDisturbs, child?]
    omega

theorem childDisturbs_list_write {elements : List AttributeValue} {position another : Nat} :
    (list elements).childDisturbs false (.index position) (.index another) = false ↔
      position < elements.length ∨ another < elements.length := by
  by_cases stands : another < elements.length <;> simp [childDisturbs, child?, stands]

theorem change?_drop_write {elements : List AttributeValue} {position another : Nat}
    (different : position ≠ another) (kept : another < position → elements.length ≤ position)
    (inside : position < elements.length ∨ another < elements.length) (child : AttributeValue) :
    ((list elements).change? (.index another) none).bind
        (fun after => after.change? (.index position) (some child)) =
      ((list elements).change? (.index position) (some child)).bind
        fun after => after.change? (.index another) none := by
  rw [change?_list_none, change?_list_some, Option.bind_some, change?_list_none, length_putAt]
  by_cases stands : another < elements.length
  · rw [if_pos stands, if_pos (by split <;> omega), Option.bind_some, change?_list_some,
      eraseIdx_putAt stands different kept]
  · rw [if_neg stands, if_neg (by split <;> omega), Option.bind_none]

theorem change?_comm_list {elements : List AttributeValue} {position another : Nat}
    (different : position ≠ another)
    (undisturbed : (list elements).childDisturbs new.isNone (.index position) (.index another) =
      false)
    (undisturbing : (list elements).childDisturbs other.isNone (.index another) (.index position) =
      false) :
    ((list elements).change? (.index position) new).bind
        (fun after => after.change? (.index another) other) =
      ((list elements).change? (.index another) other).bind
        fun after => after.change? (.index position) new := by
  cases new with
  | none =>
      have behind := childDisturbs_list_drop.mp undisturbed
      cases other with
      | none =>
          have before := childDisturbs_list_drop.mp undisturbing
          simp only [change?_list_none]
          by_cases first : position < elements.length
          · have second : ¬another < elements.length := by omega
            rw [if_pos first, if_neg second, Option.bind_some, change?_list_none,
              List.length_eraseIdx_of_lt first, if_neg (by omega), Option.bind_none]
          · by_cases second : another < elements.length
            · rw [if_neg first, if_pos second, Option.bind_some, change?_list_none,
                List.length_eraseIdx_of_lt second, if_neg (by omega), Option.bind_none]
            · rw [if_neg first, if_neg second, Option.bind_none, Option.bind_none]
      | some last =>
          have inside := childDisturbs_list_write.mp undisturbing
          exact change?_drop_write (Ne.symm different) behind inside last
  | some child =>
      have inside := childDisturbs_list_write.mp undisturbed
      cases other with
      | none =>
          have before := childDisturbs_list_drop.mp undisturbing
          exact (change?_drop_write different before inside child).symm
      | some last =>
          simp only [change?_list_some, Option.bind_some, putAt_comm different inside]

theorem change?_key_index (value : AttributeValue) (name : String) (position : Nat) :
    (value.change? (.key name) new).bind (fun after => after.change? (.index position) other) =
      none := by
  cases value <;> cases new <;> simp only [change?] <;> try split
  all_goals rfl

theorem change?_index_key (value : AttributeValue) (position : Nat) (name : String) :
    (value.change? (.index position) new).bind (fun after => after.change? (.key name) other) =
      none := by
  cases value <;> cases new <;> simp only [change?] <;> try split
  all_goals rfl

theorem change?_comm (ordered : value.Ordered) (different : first ≠ second)
    (undisturbed : value.childDisturbs new.isNone first second = false)
    (undisturbing : value.childDisturbs other.isNone second first = false) :
    (value.change? first new).bind (fun after => after.change? second other) =
      (value.change? second other).bind (fun after => after.change? first new) := by
  cases first with
  | key name =>
      cases second with
      | key another =>
          cases value with
          | map entries =>
              exact change?_comm_map (ordered_map.mp ordered) fun same => different (by rw [same])
          | _ => rfl
      | index position => rw [change?_key_index, change?_index_key]
  | index position =>
      cases second with
      | key name => rw [change?_key_index, change?_index_key]
      | index another =>
          cases value with
          | list elements =>
              exact change?_comm_list (fun same => different (by rw [same])) undisturbed
                undisturbing
          | _ => rfl

end Children

end AttributeValue
end ItemStore
