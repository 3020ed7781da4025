import ItemStore.Expression.Bindings
import ItemStore.Expression.Update
import ItemStore.Value.Equality

/-!
Applying an update to an item. The values of `SET` are computed from the item as it was; the other
clauses follow in the order `REMOVE`, `ADD`, `DELETE`, each on what the ones before it left.
-/

namespace ItemStore
namespace AttributeValue

/-- Puts `value` at a place below what stands there now. The way down must exist but for its last
step: a new entry is added to a map, and a position past the end of a list appends. -/
def place? (value : AttributeValue) : List Segment → Option AttributeValue → Option AttributeValue
  | [], _ => some value
  | .key name :: rest, some (.map entries) =>
      (place? value rest (Dict.get? entries name)).map fun child =>
        .map (Dict.insert entries name child)
  | .index position :: rest, some (.list elements) =>
      (place? value rest elements[position]?).map fun child =>
        .list (if position < elements.length then elements.set position child
          else elements ++ [child])
  | _ :: _, _ => none

def takeOut : List Segment → AttributeValue → AttributeValue
  | [.key name], .map entries => .map (Dict.erase entries name)
  | [.index position], .list elements => .list (elements.eraseIdx position)
  | .key name :: rest, .map entries =>
      match Dict.get? entries name with
      | some child => .map (Dict.insert entries name (takeOut rest child))
      | none => .map entries
  | .index position :: rest, .list elements => .list (elements.modify position (takeOut rest))
  | _, value => value

def union? : AttributeValue → AttributeValue → Option AttributeValue
  | .stringSet a, .stringSet b => some (.stringSet (a ++ b.filter fun member => !a.contains member))
  | .numberSet a, .numberSet b =>
      some (.numberSet (a ++ b.filter fun member => !a.any fun x => Number.sameTexts x member))
  | .binarySet a, .binarySet b => some (.binarySet (a ++ b.filter fun member => !a.contains member))
  | _, _ => none

def difference? : AttributeValue → AttributeValue → Option AttributeValue
  | .stringSet a, .stringSet b => some (.stringSet (a.filter fun member => !b.contains member))
  | .numberSet a, .numberSet b =>
      some (.numberSet (a.filter fun member => !b.any fun x => Number.sameTexts x member))
  | .binarySet a, .binarySet b => some (.binarySet (a.filter fun member => !b.contains member))
  | _, _ => none

def isEmptySet : AttributeValue → Bool
  | .stringSet members => members.isEmpty
  | .numberSet members => members.isEmpty
  | .binarySet members => members.isEmpty
  | _ => false

end AttributeValue

namespace Item

def place (item : Item) (location : Location) (value : AttributeValue) :
    Except ExpressionError Item :=
  match AttributeValue.place? value location.within (item.get? location.top) with
  | some placed => .ok (item.insert location.top placed)
  | none => .error .invalidDocumentPath

def takeOut (item : Item) (location : Location) : Item :=
  if location.within.isEmpty then item.erase location.top
  else
    match item.get? location.top with
    | some value => item.insert location.top (value.takeOut location.within)
    | none => item

end Item

namespace UpdateOperand

def evaluate (bindings : Bindings) (item : Item) :
    UpdateOperand → Except ExpressionError AttributeValue
  | .path target => do
      match ← bindings.lookup item target with
      | some found => return found
      | none => .error .missingAttribute
  | .value placeholder => bindings.value placeholder
  | .ifNotExists target default => do
      match ← bindings.lookup item target with
      | some found => return found
      | none => evaluate bindings item default
  | .listAppend head tail => do
      let head ← evaluate bindings item head
      let tail ← evaluate bindings item tail
      match head, tail with
      | .list head, .list tail => return .list (head ++ tail)
      | .list _, other | other, _ => .error (.incorrectOperand "list_append" other.descriptor)

end UpdateOperand

namespace SetValue

def arithmetic (sign : String) (operation : String → String → Except NumberError String)
    (left right : AttributeValue) : Except ExpressionError AttributeValue :=
  match left, right with
  | .number left, .number right =>
      match operation left right with
      | .ok result => .ok (.number result)
      | .error error => .error (.number error)
  | .number _, other => .error (.incorrectOperand sign other.descriptor)
  | other, _ => .error (.incorrectOperand sign other.descriptor)

def evaluate (bindings : Bindings) (item : Item) :
    SetValue → Except ExpressionError AttributeValue
  | .operand source => source.evaluate bindings item
  | .plus left right => do
      arithmetic "+" Number.addTexts (← left.evaluate bindings item)
        (← right.evaluate bindings item)
  | .minus left right => do
      arithmetic "-" Number.subTexts (← left.evaluate bindings item)
        (← right.evaluate bindings item)

end SetValue

namespace Update

def added (current : Option AttributeValue) (operand : AttributeValue) :
    Except ExpressionError AttributeValue :=
  match current, operand with
  | none, .number _ | none, .stringSet _ | none, .numberSet _ | none, .binarySet _ => .ok operand
  | none, other => .error (.incorrectOperand "ADD" other.descriptor)
  | some (.number current), .number delta =>
      match Number.addTexts current delta with
      | .ok sum => .ok (.number sum)
      | .error error => .error (.number error)
  | some current, operand =>
      if current.isSet && operand.isSet then
        match current.union? operand with
        | some union => .ok union
        | none => .error (.incorrectOperand "ADD" current.descriptor)
      else if operand.isNumber then .error (.incorrectOperand "ADD" current.descriptor)
      else .error (.incorrectOperand "ADD" operand.descriptor)

def applySet (bindings : Bindings) (before item : Item) (action : Path × SetValue) :
    Except ExpressionError Item := do
  let value ← action.2.evaluate bindings before
  item.place (← bindings.location action.1) value

def applyAdd (bindings : Bindings) (item : Item) (action : Path × String) :
    Except ExpressionError Item := do
  let operand ← bindings.value action.2
  let location ← bindings.location action.1
  item.place location (← added (item.at? location) operand)

def applyDelete (bindings : Bindings) (item : Item) (action : Path × String) :
    Except ExpressionError Item := do
  let operand ← bindings.value action.2
  if !operand.isSet then .error (.incorrectOperand "DELETE" operand.descriptor)
  else
    let location ← bindings.location action.1
    match item.at? location with
    | none => return item
    | some current =>
        match current.difference? operand with
        | none => .error (.incorrectOperand "DELETE" current.descriptor)
        | some rest =>
            if rest.isEmptySet then return item.takeOut location else item.place location rest

/-- Takes out the highest positions first, so that none moves before its turn. -/
def applyRemovals (item : Item) (locations : List Location) : Item :=
  (locations.mergeSort fun a b => (compare b a).isLE).foldl Item.takeOut item

def apply (update : Update) (bindings : Bindings) (item : Item) : Except ExpressionError Item := do
  let set ← update.set.foldlM (applySet bindings item) item
  let locations ← update.remove.mapM bindings.location
  let removed := applyRemovals set locations
  let added ← update.add.foldlM (applyAdd bindings) removed
  update.delete.foldlM (applyDelete bindings) added

end Update
end ItemStore
