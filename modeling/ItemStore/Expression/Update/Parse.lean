import ItemStore.Expression.Reading
import ItemStore.Expression.Update

/-!
Reading updates: clauses in any order, each at most once.
-/

namespace ItemStore
namespace Update

open Reading (unexpected skip separated)

def operand : Nat → List Token → Except ExpressionError (Reading UpdateOperand)
  | 0, .word _ :: .openParen :: _ => .error .empty
  | fuel + 1, .word name :: .openParen :: rest =>
      if name == "if_not_exists" then do
        let (target, rest) ← Reading.path rest
        let rest ← skip .comma rest
        let (default, rest) ← operand fuel rest
        return (.ifNotExists target default, ← skip .closeParen rest)
      else if name == "list_append" then do
        let (head, rest) ← operand fuel rest
        let rest ← skip .comma rest
        let (tail, rest) ← operand fuel rest
        return (.listAppend head tail, ← skip .closeParen rest)
      else .error (Reading.callError name)
  | _, .valueRef text :: rest => .ok (.value text, rest)
  | _, tokens => do
      let (target, rest) ← Reading.path tokens
      return (.path target, rest)

def setAction (tokens : List Token) : Except ExpressionError (Reading (Path × SetValue)) := do
  let (target, rest) ← Reading.path tokens
  let rest ← skip (.comparator .equal) rest
  let (first, rest) ← operand rest.length rest
  match rest with
  | .plus :: rest =>
      let (second, rest) ← operand rest.length rest
      return ((target, .plus first second), rest)
  | .minus :: rest =>
      let (second, rest) ← operand rest.length rest
      return ((target, .minus first second), rest)
  | rest => return ((target, .operand first), rest)

def pathAndValue (tokens : List Token) : Except ExpressionError (Reading (Path × String)) := do
  let (target, rest) ← Reading.path tokens
  match rest with
  | .valueRef text :: rest => return ((target, text), rest)
  | rest => unexpected "expression attribute value" rest

def clause (update : Update) : List Token → Except ExpressionError (Reading Update)
  | .keyword .set :: rest =>
      if update.set.isEmpty then do
        let (actions, rest) ← separated setAction rest.length rest
        return ({ update with set := actions }, rest)
      else .error (.duplicateClause "SET")
  | .keyword .remove :: rest =>
      if update.remove.isEmpty then do
        let (paths, rest) ← separated Reading.path rest.length rest
        return ({ update with remove := paths }, rest)
      else .error (.duplicateClause "REMOVE")
  | .keyword .add :: rest =>
      if update.add.isEmpty then do
        let (actions, rest) ← separated pathAndValue rest.length rest
        return ({ update with add := actions }, rest)
      else .error (.duplicateClause "ADD")
  | .keyword .delete :: rest =>
      if update.delete.isEmpty then do
        let (actions, rest) ← separated pathAndValue rest.length rest
        return ({ update with delete := actions }, rest)
      else .error (.duplicateClause "DELETE")
  | tokens => unexpected "SET, REMOVE, ADD, or DELETE" tokens

def clauses : Nat → Update → List Token → Except ExpressionError Update
  | _, update, [] => .ok update
  | 0, _, _ :: _ => .error .empty
  | fuel + 1, update, tokens => do
      let (update, rest) ← clause update tokens
      clauses fuel update rest

def ofTokens (tokens : List Token) : Except ExpressionError Update := do
  let update ← clauses tokens.length empty tokens
  if update.isEmpty then .error .empty else return update

def parse (text : String) : Except ExpressionError Update := do
  ofTokens (← Reading.tokens text)

end Update
end ItemStore
