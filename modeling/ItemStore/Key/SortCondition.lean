import ItemStore.Key.Value

/-!
Conditions on the sort value of a row, and the bounds they put on a read in key order: where the
rows that match can begin, and where none can follow.
-/

namespace ItemStore

inductive SortCondition where
  | equal (value : KeyValue)
  | less (value : KeyValue)
  | lessEqual (value : KeyValue)
  | greater (value : KeyValue)
  | greaterEqual (value : KeyValue)
  | between (low high : KeyValue)
  | beginsWith (start : KeyValue)
deriving DecidableEq

namespace SortCondition

def matching (condition : SortCondition) (value : KeyValue) : Bool :=
  match condition with
  | .equal operand => value == operand
  | .less operand => value.sameType operand && (compare value operand).isLT
  | .lessEqual operand => value.sameType operand && (compare value operand).isLE
  | .greater operand => value.sameType operand && (compare value operand).isGT
  | .greaterEqual operand => value.sameType operand && (compare value operand).isGE
  | .between low high =>
      value.sameType low && (compare value low).isGE && (compare value high).isLE
  | .beginsWith start => value.startsWith start

def lowerBound? : SortCondition → Option KeyValue
  | .equal value => some value
  | .greater value => some value
  | .greaterEqual value => some value
  | .between low _ => some low
  | .beginsWith start => some start
  | .less _ => none
  | .lessEqual _ => none

def isAbove (condition : SortCondition) (value : KeyValue) : Bool :=
  match condition with
  | .equal operand => (compare value operand).isGT
  | .lessEqual operand => (compare value operand).isGT
  | .between _ high => (compare value high).isGT
  | .less operand => (compare value operand).isGE
  | .beginsWith start => (compare value start).isGT && !value.startsWith start
  | .greater _ => false
  | .greaterEqual _ => false

def isBelow (condition : SortCondition) (value : KeyValue) : Bool :=
  condition.lowerBound?.any fun low => (compare value low).isLT

end SortCondition
end ItemStore
