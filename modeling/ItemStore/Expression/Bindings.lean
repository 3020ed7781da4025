import ItemStore.Expression.Error

/-!
The attribute names and values that the placeholders of an expression stand for.
-/

namespace ItemStore

structure Bindings where
  names : Dict String String
  values : Dict String AttributeValue

namespace Bindings

def none : Bindings := ⟨[], []⟩

def name (bindings : Bindings) : NameRef → Except ExpressionError String
  | .literal name => .ok name
  | .placeholder text =>
      match bindings.names.get? text with
      | some name => .ok name
      | Option.none => .error (.undefinedName text)

def value (bindings : Bindings) (placeholder : String) : Except ExpressionError AttributeValue :=
  match bindings.values.get? placeholder with
  | some value => .ok value
  | Option.none => .error (.undefinedValue placeholder)

def segment (bindings : Bindings) : PathStep → Except ExpressionError Segment
  | .field name => (bindings.name name).map .key
  | .index position => .ok (.index position)

def location (bindings : Bindings) (path : Path) : Except ExpressionError Location := do
  let top ← bindings.name path.root
  let within ← path.steps.mapM bindings.segment
  return ⟨top, within⟩

def lookup (bindings : Bindings) (item : Item) (path : Path) :
    Except ExpressionError (Option AttributeValue) :=
  (bindings.location path).map item.at?

end Bindings
end ItemStore
