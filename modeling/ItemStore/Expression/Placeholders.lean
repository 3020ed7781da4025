import ItemStore.Expression.Condition
import ItemStore.Expression.Error
import ItemStore.Expression.Update

/-!
The placeholders that expressions use, and the check that all those given are used.
-/

namespace ItemStore

structure Placeholders where
  names : List String
  values : List String
deriving DecidableEq

namespace Placeholders

def none : Placeholders := ⟨[], []⟩

def append (a b : Placeholders) : Placeholders :=
  ⟨a.names ++ b.names, a.values ++ b.values⟩

instance : Append Placeholders := ⟨append⟩

def ofName : NameRef → Placeholders
  | .literal _ => none
  | .placeholder text => ⟨[text], []⟩

def ofValue (placeholder : String) : Placeholders :=
  ⟨[], [placeholder]⟩

def ofStep : PathStep → Placeholders
  | .field name => ofName name
  | .index _ => none

def ofAll {α : Type} (of : α → Placeholders) (elements : List α) : Placeholders :=
  elements.foldr (fun element rest => of element ++ rest) none

def ofPath (path : Path) : Placeholders :=
  ofName path.root ++ ofAll ofStep path.steps

def ofPaths (paths : List Path) : Placeholders :=
  ofAll ofPath paths

def ofOperand : Operand → Placeholders
  | .path target => ofPath target
  | .value placeholder => ofValue placeholder
  | .size target => ofPath target

def ofCondition : Condition → Placeholders
  | .compare left _ right => ofOperand left ++ ofOperand right
  | .between value low high => ofOperand value ++ ofOperand low ++ ofOperand high
  | .among value candidates => ofOperand value ++ ofAll ofOperand candidates
  | .logical _ left right => ofCondition left ++ ofCondition right
  | .not inner => ofCondition inner
  | .attributeExists target => ofPath target
  | .attributeNotExists target => ofPath target
  | .attributeType target type => ofPath target ++ ofOperand type
  | .beginsWith target start => ofPath target ++ ofOperand start
  | .contains target part => ofPath target ++ ofOperand part

def ofUpdateOperand : UpdateOperand → Placeholders
  | .path target => ofPath target
  | .value placeholder => ofValue placeholder
  | .ifNotExists target default => ofPath target ++ ofUpdateOperand default
  | .listAppend head tail => ofUpdateOperand head ++ ofUpdateOperand tail

def ofSetValue : SetValue → Placeholders
  | .operand source => ofUpdateOperand source
  | .plus left right => ofUpdateOperand left ++ ofUpdateOperand right
  | .minus left right => ofUpdateOperand left ++ ofUpdateOperand right

def ofUpdate (update : Update) : Placeholders :=
  ofAll (fun action => ofPath action.1 ++ ofSetValue action.2) update.set ++
    ofPaths update.remove ++
    ofAll (fun action => ofPath action.1 ++ ofValue action.2) update.add ++
    ofAll (fun action => ofPath action.1 ++ ofValue action.2) update.delete

def ofOption {α : Type} (of : α → Placeholders) : Option α → Placeholders
  | some part => of part
  | Option.none => none

def checkAllUsed {α : Type} (used : Placeholders) (names : Dict String String)
    (values : Dict String α) : Except ExpressionError Unit :=
  let unusedNames := names.keys.filter fun name => !used.names.contains name
  let unusedValues := values.keys.filter fun name => !used.values.contains name
  if !unusedNames.isEmpty then .error (.unusedNames unusedNames)
  else if !unusedValues.isEmpty then .error (.unusedValues unusedValues)
  else .ok ()

def listed (texts : List String) : List String :=
  (Dict.ofList (texts.map fun text => (text, ()))).keys

end Placeholders
end ItemStore
