import ItemStore.Expression.Reading

/-!
Reading conditions. `OR` binds weakest, then `AND`, then `NOT`; both connectives group to the left.
-/

namespace ItemStore
namespace Condition

open Reading (unexpected skip separated)

def operand : List Token → Except ExpressionError (Reading Operand)
  | .word name :: .openParen :: rest =>
      if name == "size" then do
        let (target, rest) ← Reading.path rest
        match rest with
        | .comma :: _ => .error (.arity name 2)
        | rest => return (.size target, ← skip .closeParen rest)
      else .error (Reading.callError name)
  | .valueRef text :: rest => .ok (.value text, rest)
  | tokens => do
      let (target, rest) ← Reading.path tokens
      return (.path target, rest)

def operands (tokens : List Token) : Except ExpressionError (Reading (List Operand)) := do
  let (operands, rest) ← separated operand tokens.length tokens
  return (operands, ← skip .closeParen rest)

def ofCall (function : TestFunction) (operands : List Operand) : Except ExpressionError Condition :=
  if operands.length != function.arity then .error (.arity function.name operands.length)
  else
    match operands with
    | .path target :: others =>
        match call? function target others with
        | some condition => .ok condition
        | none => .error (.arity function.name operands.length)
    | first :: _ =>
        .error (.unexpected ("attribute path as first operand of " ++ function.name)
          (Token.quoted first.text))
    | [] => .error (.arity function.name 0)

def comparison (left : Operand) : List Token → Except ExpressionError (Reading Condition)
  | .comparator comparator :: rest => do
      let (right, rest) ← operand rest
      return (.compare left comparator right, rest)
  | .keyword .between :: rest => do
      let (low, rest) ← operand rest
      let rest ← skip (.keyword .and) rest
      let (high, rest) ← operand rest
      return (.between left low high, rest)
  | .keyword .among :: rest => do
      let rest ← skip .openParen rest
      let (candidates, rest) ← operands rest
      return (.among left candidates, rest)
  | tokens => unexpected "comparator, BETWEEN, or IN" tokens

def simple (tokens : List Token) : Except ExpressionError (Reading Condition) :=
  let plain : Except ExpressionError (Reading Condition) := do
    let (left, rest) ← operand tokens
    comparison left rest
  match tokens with
  | .word name :: .openParen :: rest =>
      match TestFunction.ofName? name with
      | some function => do
          let (operands, rest) ← operands rest
          return (← ofCall function operands, rest)
      | none => plain
  | _ => plain

mutual
def disjunction : Nat → List Token → Except ExpressionError (Reading Condition)
  | 0, _ => .error .empty
  | fuel + 1, tokens => do
      let (left, rest) ← conjunction fuel tokens
      moreDisjuncts fuel left rest

def moreDisjuncts : Nat → Condition → List Token → Except ExpressionError (Reading Condition)
  | 0, _, .keyword .or :: _ => .error .empty
  | fuel + 1, left, .keyword .or :: rest => do
      let (right, rest) ← conjunction fuel rest
      moreDisjuncts fuel (.logical .or left right) rest
  | _, left, rest => .ok (left, rest)

def conjunction : Nat → List Token → Except ExpressionError (Reading Condition)
  | 0, _ => .error .empty
  | fuel + 1, tokens => do
      let (left, rest) ← negation fuel tokens
      moreConjuncts fuel left rest

def moreConjuncts : Nat → Condition → List Token → Except ExpressionError (Reading Condition)
  | 0, _, .keyword .and :: _ => .error .empty
  | fuel + 1, left, .keyword .and :: rest => do
      let (right, rest) ← negation fuel rest
      moreConjuncts fuel (.logical .and left right) rest
  | _, left, rest => .ok (left, rest)

def negation : Nat → List Token → Except ExpressionError (Reading Condition)
  | 0, _ => .error .empty
  | fuel + 1, .keyword .not :: rest => do
      let (inner, rest) ← negation fuel rest
      return (.not inner, rest)
  | fuel + 1, tokens => primary fuel tokens

def primary : Nat → List Token → Except ExpressionError (Reading Condition)
  | 0, _ => .error .empty
  | fuel + 1, .openParen :: rest => do
      let (inner, rest) ← disjunction fuel rest
      return (inner, ← skip .closeParen rest)
  | _ + 1, tokens => simple tokens
end

def readingFuel (tokens : List Token) : Nat :=
  4 * tokens.length + 4

def ofTokens (tokens : List Token) : Except ExpressionError Condition :=
  Reading.finish (disjunction (readingFuel tokens) tokens)

def parse (text : String) : Except ExpressionError Condition := do
  ofTokens (← Reading.tokens text)

end Condition
end ItemStore
