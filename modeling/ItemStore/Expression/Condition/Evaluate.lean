import ItemStore.Expression.Bindings
import ItemStore.Expression.Condition
import ItemStore.Value.Display
import ItemStore.Value.Equality

/-!
Whether an item satisfies a condition. An operand that the item does not have satisfies no
comparison; that is no error.
-/

namespace ItemStore
namespace AttributeValue

def compare? : AttributeValue → AttributeValue → Option Ordering
  | .string a, .string b => some (compare a b)
  | .number a, .number b => Number.compareTexts? a b
  | .binary a, .binary b => some (compare a b)
  | _, _ => none

def satisfies (left : AttributeValue) (comparator : Comparator) (right : AttributeValue) : Bool :=
  match comparator with
  | .equal => left == right
  | .notEqual => !(left == right)
  | .less => compare? left right == some .lt
  | .lessEqual => (compare? left right).any Ordering.isLE
  | .greater => compare? left right == some .gt
  | .greaterEqual => (compare? left right).any Ordering.isGE

def size : AttributeValue → Except ExpressionError Nat
  | .string text => .ok text.utf8ByteSize
  | .binary bytes => .ok bytes.length
  | .stringSet members => .ok members.length
  | .numberSet members => .ok members.length
  | .binarySet members => .ok members.length
  | .list elements => .ok elements.length
  | .map entries => .ok entries.length
  | value => .error (.incorrectOperand "size" value.descriptor)

def hasRun {α : Type} [BEq α] (part : List α) : List α → Bool
  | [] => part.isEmpty
  | first :: rest => part.isPrefixOf (first :: rest) || hasRun part rest

def contains : AttributeValue → AttributeValue → Bool
  | .string text, .string part => hasRun part.toList text.toList
  | .binary bytes, .binary part => hasRun part bytes
  | .stringSet members, .string text => members.contains text
  | .numberSet members, .number text => members.any fun member => Number.sameTexts member text
  | .binarySet members, .binary bytes => members.contains bytes
  | .list elements, value => elements.any fun element => element == value
  | _, _ => false

def beginsWith : AttributeValue → AttributeValue → Bool
  | .string text, .string start => start.toList.isPrefixOf text.toList
  | .binary bytes, .binary start => start.isPrefixOf bytes
  | _, _ => false

end AttributeValue

namespace Operand

def evaluate (bindings : Bindings) (item : Item) :
    Operand → Except ExpressionError (Option AttributeValue)
  | .path target => bindings.lookup item target
  | .value placeholder => (bindings.value placeholder).map some
  | .size target => do
      match ← bindings.lookup item target with
      | none => return none
      | some found => return some (.number (toString (← found.size)))

end Operand

namespace Condition

def wrongOperand (function : TestFunction) (operand : Option AttributeValue) : ExpressionError :=
  .incorrectOperand function.name ((operand.map AttributeValue.descriptor).getD "missing")

def anyEqual (bindings : Bindings) (item : Item) (value : AttributeValue) :
    List Operand → Except ExpressionError Bool
  | [] => .ok false
  | candidate :: rest => do
      match ← candidate.evaluate bindings item with
      | some found => if value == found then return true else anyEqual bindings item value rest
      | none => anyEqual bindings item value rest

def evaluateBetween (value low high : Option AttributeValue) : Bool :=
  match value, low, high with
  | some value, some low, some high =>
      value.satisfies .greaterEqual low && value.satisfies .lessEqual high
  | _, _, _ => false

def checkBounds (low high : Option AttributeValue) : Except ExpressionError Unit :=
  match low, high with
  | some low, some high =>
      if AttributeValue.compare? low high == some .gt then
        .error (.betweenBounds low.shown high.shown)
      else .ok ()
  | _, _ => .ok ()

def evaluateType (subject type : Option AttributeValue) : Except ExpressionError Bool :=
  match type with
  | some (.string descriptor) =>
      if AttributeValue.descriptors.contains descriptor then
        .ok (subject.any fun value => value.descriptor == descriptor)
      else .error (.incorrectOperand TestFunction.attributeType.name descriptor)
  | other => .error (wrongOperand .attributeType other)

def evaluateBeginsWith (subject start : Option AttributeValue) : Except ExpressionError Bool :=
  match subject, start with
  | _, none => .ok false
  | subject, some start =>
      match start with
      | .string _ | .binary _ => .ok (subject.any fun value => value.beginsWith start)
      | other => .error (wrongOperand .beginsWith (some other))

def evaluateContains (subject part : Option AttributeValue) : Bool :=
  match subject, part with
  | some subject, some part => subject.contains part
  | _, _ => false

def evaluate (bindings : Bindings) (item : Item) : Condition → Except ExpressionError Bool
  | .compare left comparator right => do
      let left ← left.evaluate bindings item
      let right ← right.evaluate bindings item
      match left, right with
      | some left, some right => return left.satisfies comparator right
      | _, _ => return false
  | .between value low high => do
      let low ← low.evaluate bindings item
      let high ← high.evaluate bindings item
      checkBounds low high
      let value ← value.evaluate bindings item
      return evaluateBetween value low high
  | .among value candidates => do
      match ← value.evaluate bindings item with
      | some value => anyEqual bindings item value candidates
      | none => return false
  | .logical .and left right => do
      if ← evaluate bindings item left then evaluate bindings item right else return false
  | .logical .or left right => do
      if ← evaluate bindings item left then return true else evaluate bindings item right
  | .not inner => do
      return !(← evaluate bindings item inner)
  | .attributeExists target => do
      return (← bindings.lookup item target).isSome
  | .attributeNotExists target => do
      return (← bindings.lookup item target).isNone
  | .attributeType target type => do
      let subject ← bindings.lookup item target
      evaluateType subject (← type.evaluate bindings item)
  | .beginsWith target start => do
      let subject ← bindings.lookup item target
      evaluateBeginsWith subject (← start.evaluate bindings item)
  | .contains target part => do
      let subject ← bindings.lookup item target
      return evaluateContains subject (← part.evaluate bindings item)

end Condition
end ItemStore
