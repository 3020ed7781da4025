import ItemStore.Expression.Path

/-!
Condition expressions: what is asked of an item.
-/

namespace ItemStore

inductive Comparator where
  | equal
  | notEqual
  | less
  | lessEqual
  | greater
  | greaterEqual
deriving DecidableEq, Repr

namespace Comparator

def text : Comparator → String
  | .equal => "="
  | .notEqual => "<>"
  | .less => "<"
  | .lessEqual => "<="
  | .greater => ">"
  | .greaterEqual => ">="

def flipped : Comparator → Comparator
  | .less => .greater
  | .lessEqual => .greaterEqual
  | .greater => .less
  | .greaterEqual => .lessEqual
  | same => same

end Comparator

inductive Connective where
  | and
  | or
deriving DecidableEq, Repr

def Connective.text : Connective → String
  | .and => "AND"
  | .or => "OR"

inductive Operand where
  | path (target : Path)
  | value (placeholder : String)
  | size (target : Path)
deriving DecidableEq, Repr

def Operand.text : Operand → String
  | .path target => target.text
  | .value placeholder => placeholder
  | .size target => "size(" ++ target.text ++ ")"

inductive TestFunction where
  | attributeExists
  | attributeNotExists
  | attributeType
  | beginsWith
  | contains
deriving DecidableEq, Repr

namespace TestFunction

def name : TestFunction → String
  | .attributeExists => "attribute_exists"
  | .attributeNotExists => "attribute_not_exists"
  | .attributeType => "attribute_type"
  | .beginsWith => "begins_with"
  | .contains => "contains"

def all : List TestFunction :=
  [.attributeExists, .attributeNotExists, .attributeType, .beginsWith, .contains]

def ofName? (name : String) : Option TestFunction :=
  all.find? fun function => function.name == name

def arity : TestFunction → Nat
  | .attributeExists | .attributeNotExists => 1
  | .attributeType | .beginsWith | .contains => 2

end TestFunction

inductive Condition where
  | compare (left : Operand) (comparator : Comparator) (right : Operand)
  | between (value low high : Operand)
  | among (value : Operand) (candidates : List Operand)
  | logical (connective : Connective) (left right : Condition)
  | not (inner : Condition)
  | attributeExists (path : Path)
  | attributeNotExists (path : Path)
  | attributeType (path : Path) (type : Operand)
  | beginsWith (path : Path) (start : Operand)
  | contains (path : Path) (part : Operand)
deriving Repr

namespace Condition

def call? : TestFunction → Path → List Operand → Option Condition
  | .attributeExists, path, [] => some (.attributeExists path)
  | .attributeNotExists, path, [] => some (.attributeNotExists path)
  | .attributeType, path, [type] => some (.attributeType path type)
  | .beginsWith, path, [start] => some (.beginsWith path start)
  | .contains, path, [part] => some (.contains path part)
  | _, _, _ => none

end Condition
end ItemStore
