import ItemStore.Expression.Condition
import ItemStore.Expression.Error
import ItemStore.Text.Blank

/-!
The tokens of the expression language, and how a text splits into them.
-/

namespace ItemStore

inductive Keyword where
  | and
  | or
  | not
  | between
  | among
  | set
  | remove
  | add
  | delete
deriving DecidableEq, Repr

namespace Keyword

def text : Keyword → String
  | .and => "AND"
  | .or => "OR"
  | .not => "NOT"
  | .between => "BETWEEN"
  | .among => "IN"
  | .set => "SET"
  | .remove => "REMOVE"
  | .add => "ADD"
  | .delete => "DELETE"

def all : List Keyword :=
  [.and, .or, .not, .between, .among, .set, .remove, .add, .delete]

def ofWord? (word : List Char) : Option Keyword :=
  all.find? fun keyword => keyword.text.toList == word.map Char.toUpper

end Keyword

inductive Token where
  | word (name : String)
  | nameRef (text : String)
  | valueRef (text : String)
  | index (position : Nat)
  | comparator (kind : Comparator)
  | keyword (kind : Keyword)
  | plus
  | minus
  | dot
  | comma
  | openParen
  | closeParen
  | openBracket
  | closeBracket
deriving DecidableEq, Repr

namespace Token

def quoted (text : String) : String :=
  "'" ++ text ++ "'"

def shown : Token → String
  | .word name => quoted name
  | .nameRef text => quoted text
  | .valueRef text => quoted text
  | .index position => quoted (toString position)
  | .comparator kind => quoted kind.text
  | .keyword kind => kind.text
  | .plus => quoted "+"
  | .minus => quoted "-"
  | .dot => quoted "."
  | .comma => quoted ","
  | .openParen => quoted "("
  | .closeParen => quoted ")"
  | .openBracket => quoted "["
  | .closeBracket => quoted "]"

def atEnd : String := "end of expression"

def isWordStart (c : Char) : Bool :=
  c.isAlpha || c == '_'

def isWordChar (c : Char) : Bool :=
  c.isAlphanum || c == '_'

def punctuation? : Char → Option Token
  | '=' => some (.comparator .equal)
  | '+' => some .plus
  | '-' => some .minus
  | '.' => some .dot
  | ',' => some .comma
  | '(' => some .openParen
  | ')' => some .closeParen
  | '[' => some .openBracket
  | ']' => some .closeBracket
  | _ => none

def ofWord (word : List Char) : Token :=
  match Keyword.ofWord? word with
  | some kind => .keyword kind
  | none => .word (String.ofList word)

def indexLimit : Nat := UInt64.size

def scanIndex (digits : List Char) : Except ExpressionError Token :=
  let position := Nat.ofDigitChars 10 digits 0
  if position < indexLimit then .ok (.index position)
  else .error (.unexpected "list index" (quoted (String.ofList digits)))

def scanPlaceholder (mark : Char) (rest : List Char) : Except ExpressionError Token :=
  let body := rest.takeWhile isWordChar
  if body.isEmpty then
    .error (.unexpected ("placeholder name after " ++ quoted (String.singleton mark))
      (match rest with
        | [] => atEnd
        | c :: _ => quoted (String.singleton c)))
  else
    let text := String.ofList (mark :: body)
    .ok (if mark == '#' then .nameRef text else .valueRef text)

def scanOne (c : Char) (rest : List Char) : Except ExpressionError (Token × List Char) :=
  match punctuation? c with
  | some token => .ok (token, rest)
  | none =>
      if c == '<' then
        match rest with
        | '=' :: rest => .ok (.comparator .lessEqual, rest)
        | '>' :: rest => .ok (.comparator .notEqual, rest)
        | rest => .ok (.comparator .less, rest)
      else if c == '>' then
        match rest with
        | '=' :: rest => .ok (.comparator .greaterEqual, rest)
        | rest => .ok (.comparator .greater, rest)
      else if c == '#' || c == ':' then
        (scanPlaceholder c rest).map fun token => (token, rest.dropWhile isWordChar)
      else if c.isDigit then
        (scanIndex (c :: rest.takeWhile Char.isDigit)).map fun token =>
          (token, rest.dropWhile Char.isDigit)
      else if isWordStart c then
        .ok (ofWord (c :: rest.takeWhile isWordChar), rest.dropWhile isWordChar)
      else .error (.unexpected "a valid token" (quoted (String.singleton c)))

def scanAll : Nat → List Char → Except ExpressionError (List Token)
  | fuel, text =>
      match text.dropWhile Text.isSeparator with
      | [] => .ok []
      | c :: rest =>
          match fuel with
          | 0 => .error .empty
          | fuel + 1 => do
              let (token, rest) ← scanOne c rest
              return token :: (← scanAll fuel rest)

def scan (text : List Char) : Except ExpressionError (List Token) :=
  scanAll text.length text

end Token
end ItemStore
