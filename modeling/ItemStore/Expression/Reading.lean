import ItemStore.Expression.Token

/-!
Reading parts that all kinds of expressions share from the front of a list of tokens: each reader
returns what it read and the tokens after it.
-/

namespace ItemStore

abbrev Reading (α : Type) := α × List Token

namespace Reading

variable {α : Type}

def shownFirst : List Token → String
  | [] => Token.atEnd
  | token :: _ => token.shown

def unexpected (expected : String) (tokens : List Token) : Except ExpressionError α :=
  .error (.unexpected expected (shownFirst tokens))

def skip (token : Token) : List Token → Except ExpressionError (List Token)
  | [] => unexpected token.shown []
  | first :: rest => if first = token then .ok rest else unexpected token.shown (first :: rest)

def finish (result : Except ExpressionError (Reading α)) : Except ExpressionError α := do
  let (value, rest) ← result
  match rest with
  | [] => return value
  | rest => unexpected Token.atEnd rest

def pathSteps : List Token → Except ExpressionError (Reading (List PathStep))
  | .dot :: .word name :: rest => do
      let (steps, rest) ← pathSteps rest
      return (.field (.literal name) :: steps, rest)
  | .dot :: .nameRef text :: rest => do
      let (steps, rest) ← pathSteps rest
      return (.field (.placeholder text) :: steps, rest)
  | .dot :: rest => unexpected "attribute name" rest
  | .openBracket :: .index position :: .closeBracket :: rest => do
      let (steps, rest) ← pathSteps rest
      return (.index position :: steps, rest)
  | .openBracket :: .index _ :: rest => unexpected (Token.shown .closeBracket) rest
  | .openBracket :: rest => unexpected "list index" rest
  | rest => .ok ([], rest)

def path : List Token → Except ExpressionError (Reading Path)
  | .word name :: rest => do
      let (steps, rest) ← pathSteps rest
      return (⟨.literal name, steps⟩, rest)
  | .nameRef text :: rest => do
      let (steps, rest) ← pathSteps rest
      return (⟨.placeholder text, steps⟩, rest)
  | tokens => unexpected "attribute name" tokens

/-- Elements with a comma before each. There are no more elements than tokens, so `fuel` may be the
number of tokens. -/
def afterCommas (element : List Token → Except ExpressionError (Reading α)) :
    Nat → List Token → Except ExpressionError (Reading (List α))
  | 0, .comma :: _ => .error .empty
  | fuel + 1, .comma :: rest => do
      let (next, rest) ← element rest
      let (others, rest) ← afterCommas element fuel rest
      return (next :: others, rest)
  | _, rest => .ok ([], rest)

def separated (element : List Token → Except ExpressionError (Reading α)) (fuel : Nat)
    (tokens : List Token) : Except ExpressionError (Reading (List α)) := do
  let (first, rest) ← element tokens
  let (others, rest) ← afterCommas element fuel rest
  return (first :: others, rest)

def isFunctionName (name : String) : Bool :=
  (TestFunction.ofName? name).isSome || name == "size" || name == "if_not_exists" ||
    name == "list_append"

def callError (name : String) : ExpressionError :=
  if isFunctionName name then .functionNotAllowed name else .unknownFunction name

def tokens (text : String) : Except ExpressionError (List Token) :=
  if Text.isBlank text.toList then .error .empty else Token.scan text.toList

end Reading
end ItemStore
