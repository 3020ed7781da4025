import ItemStore.Expression.Bindings
import ItemStore.Expression.Condition.Evaluate
import ItemStore.Key.SortCondition

/-!
Key conditions: conditions that select rows of one partition, as a hash value and a condition on the
sort value.
-/

namespace ItemStore

structure KeyCondition where
  hash : KeyValue
  sort : Option SortCondition
deriving DecidableEq

namespace KeyCondition

inductive Term where
  | compare (left : Operand) (comparator : Comparator) (right : Operand)
  | between (value low high : Operand)
  | beginsWith (target : Path) (start : Operand)

def refuse {α : Type} (fault : KeyConditionFault) : Except ExpressionError α :=
  .error (.keyCondition fault)

def terms : Condition → Except ExpressionError (List Term)
  | .logical .and left right => do
      let left ← terms left
      let right ← terms right
      return left ++ right
  | .logical .or _ _ => refuse (.operator Connective.or.text)
  | .not _ => refuse (.operator "NOT")
  | .among _ _ => refuse (.operator "IN")
  | .attributeExists _ => refuse (.operator TestFunction.attributeExists.name)
  | .attributeNotExists _ => refuse (.operator TestFunction.attributeNotExists.name)
  | .attributeType _ _ => refuse (.operator TestFunction.attributeType.name)
  | .contains _ _ => refuse (.operator TestFunction.contains.name)
  | .compare left comparator right => .ok [.compare left comparator right]
  | .between value low high => .ok [.between value low high]
  | .beginsWith target start => .ok [.beginsWith target start]

def keyValue (value : AttributeValue) : Except ExpressionError KeyValue :=
  match KeyValue.ofAttribute? value with
  | some key => .ok key
  | none => refuse (.valueType value.descriptor)

def keyName (bindings : Bindings) (target : Path) : Except ExpressionError String := do
  let location ← bindings.location target
  if location.within.isEmpty then return location.top else refuse (.nestedAttribute target)

def ofComparator (value : KeyValue) : Comparator → Except ExpressionError SortCondition
  | .equal => .ok (.equal value)
  | .less => .ok (.less value)
  | .lessEqual => .ok (.lessEqual value)
  | .greater => .ok (.greater value)
  | .greaterEqual => .ok (.greaterEqual value)
  | .notEqual => refuse (.operator Comparator.notEqual.text)

def ofComparison (bindings : Bindings) (target : Path) (comparator : Comparator)
    (placeholder : String) : Except ExpressionError (String × SortCondition) := do
  let value ← keyValue (← bindings.value placeholder)
  let condition ← ofComparator value comparator
  return (← keyName bindings target, condition)

def ofTerm (bindings : Bindings) : Term → Except ExpressionError (String × SortCondition)
  | .compare (.path target) comparator (.value placeholder) =>
      ofComparison bindings target comparator placeholder
  | .compare (.value placeholder) comparator (.path target) =>
      ofComparison bindings target comparator.flipped placeholder
  | .compare _ _ _ => refuse .comparesNoValue
  | .between (.path target) (.value low) (.value high) => do
      let low ← bindings.value low
      let high ← bindings.value high
      Condition.checkBounds (some low) (some high)
      let low ← keyValue low
      let high ← keyValue high
      return (← keyName bindings target, .between low high)
  | .between _ _ _ => refuse .betweenOperands
  | .beginsWith target (.value placeholder) => do
      let start ← bindings.value placeholder
      match start with
      | .string _ | .binary _ =>
          let name ← keyName bindings target
          return (name, .beginsWith (← keyValue start))
      | other => .error (Condition.wrongOperand .beginsWith (some other))
  | .beginsWith _ _ => refuse .beginsWithOperands

structure Known where
  hash : Option KeyValue
  sort : Option SortCondition

def Known.add (hashKey : String) (sortKey : Option String) (known : Known)
    (asked : String × SortCondition) : Except ExpressionError Known :=
  if asked.1 == hashKey then
    match asked.2, known.hash with
    | .equal value, none => .ok { known with hash := some value }
    | .equal _, some _ => refuse .repeatedKey
    | _, _ => refuse .hashNotEqual
  else if sortKey == some asked.1 then
    match known.sort with
    | none => .ok { known with sort := some asked.2 }
    | some _ => refuse .repeatedKey
  else refuse (.otherAttribute hashKey asked.1)

def compile (condition : Condition) (bindings : Bindings) (hashKey : String)
    (sortKey : Option String) : Except ExpressionError KeyCondition := do
  let parts ← terms condition
  let asked ← parts.foldlM
    (fun known term => do Known.add hashKey sortKey known (← ofTerm bindings term))
    (⟨none, none⟩ : Known)
  match asked.hash with
  | some hash => return ⟨hash, asked.sort⟩
  | none => refuse (.missingHash hashKey)

end KeyCondition
end ItemStore
