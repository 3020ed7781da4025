import ItemStore.Expression.Path
import ItemStore.Number.Range

/-!
What can be wrong with an expression, with the names and values given for it, or with applying it
to an item.
-/

namespace ItemStore

inductive KeyConditionFault where
  | repeatedKey
  | hashNotEqual
  | missingHash (hashKey : String)
  | otherAttribute (hashKey found : String)
  | operator (text : String)
  | comparesNoValue
  | betweenOperands
  | beginsWithOperands
  | nestedAttribute (path : Path)
  | valueType (descriptor : String)
deriving DecidableEq, Repr

def KeyConditionFault.message : KeyConditionFault → String
  | .repeatedKey => "KeyConditionExpressions must only contain one condition per key"
  | .hashNotEqual => "Query key condition not supported"
  | .missingHash hashKey => "Query condition missed key schema element: " ++ hashKey
  | .otherAttribute hashKey found =>
      "Query condition missed key schema element: " ++ hashKey ++ "; found non-key attribute " ++
        found
  | .operator text => "Invalid operator used in KeyConditionExpression: " ++ text
  | .comparesNoValue => "KeyConditionExpressions must compare a key attribute with a value"
  | .betweenOperands => "BETWEEN requires a key attribute and two values"
  | .beginsWithOperands => "begins_with requires a key attribute and a value"
  | .nestedAttribute path => "Key attribute must be a top-level attribute: " ++ path.text
  | .valueType descriptor =>
      "One or more parameter values were invalid: key values must be of type S, N, or B, found " ++
        descriptor

inductive ExpressionError where
  | unexpected (expected found : String)
  | empty
  | duplicateClause (clause : String)
  | undefinedName (placeholder : String)
  | undefinedValue (placeholder : String)
  | unusedNames (placeholders : List String)
  | unusedValues (placeholders : List String)
  | incorrectOperand (function operand : String)
  | arity (function : String) (count : Nat)
  | unknownFunction (name : String)
  | functionNotAllowed (name : String)
  | missingAttribute
  | invalidDocumentPath
  | overlappingPaths (one two : Path)
  | conflictingPaths (one two : Path)
  | keyAttributeUpdate (name : String)
  | keyCondition (fault : KeyConditionFault)
  | betweenBounds (low high : String)
  | number (error : NumberError)
deriving DecidableEq, Repr

def ExpressionError.message : ExpressionError → String
  | .unexpected expected found =>
      "Invalid expression: Syntax error; expected " ++ expected ++ ", found " ++ found
  | .empty => "Invalid expression: The expression can not be empty"
  | .duplicateClause clause =>
      "Invalid UpdateExpression: The \"" ++ clause ++
        "\" section can only be used once in an update expression"
  | .undefinedName placeholder =>
      "Invalid expression: An expression attribute name used in the document path is not " ++
        "defined; attribute name: " ++ placeholder
  | .undefinedValue placeholder =>
      "Invalid expression: An expression attribute value used in expression is not defined; " ++
        "attribute value: " ++ placeholder
  | .unusedNames placeholders =>
      "Value provided in ExpressionAttributeNames unused in expressions: keys: \x7b" ++
        ", ".intercalate placeholders ++ "\x7d"
  | .unusedValues placeholders =>
      "Value provided in ExpressionAttributeValues unused in expressions: keys: \x7b" ++
        ", ".intercalate placeholders ++ "\x7d"
  | .incorrectOperand function operand =>
      "Invalid expression: Incorrect operand type for operator or function; operator or " ++
        "function: " ++ function ++ ", operand type: " ++ operand
  | .arity function count =>
      "Invalid expression: Incorrect number of operands for operator or function; operator or " ++
        "function: " ++ function ++ ", number of operands: " ++ toString count
  | .unknownFunction name => "Invalid expression: Invalid function name; function: " ++ name
  | .functionNotAllowed name =>
      "Invalid expression: The function is not allowed to be used this way in an expression; " ++
        "function: " ++ name
  | .missingAttribute =>
      "The provided expression refers to an attribute that does not exist in the item"
  | .invalidDocumentPath =>
      "The document path provided in the update expression is invalid for update"
  | .overlappingPaths one two =>
      "Invalid UpdateExpression: Two document paths overlap with each other; must remove or " ++
        "rewrite one of these paths; path one: " ++ one.text ++ ", path two: " ++ two.text
  | .conflictingPaths one two =>
      "Invalid UpdateExpression: Two document paths conflict with each other; path one: " ++
        one.text ++ ", path two: " ++ two.text
  | .keyAttributeUpdate name =>
      "One or more parameter values were invalid: Cannot update attribute " ++ name ++
        ". This attribute is part of the key"
  | .keyCondition fault => "Invalid KeyConditionExpression: " ++ fault.message
  | .betweenBounds low high =>
      "Invalid expression: The BETWEEN operator requires upper bound to be greater than or " ++
        "equal to lower bound; lower bound operand: " ++ low ++ ", upper bound operand: " ++ high
  | .number error => error.message

end ItemStore
