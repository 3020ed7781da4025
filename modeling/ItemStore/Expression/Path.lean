import ItemStore.Value.Basic

/-!
Document paths as they are written, with placeholders for attribute names, and the locations they
name once placeholders are replaced.
-/

namespace ItemStore

inductive NameRef where
  | literal (name : String)
  | placeholder (text : String)
deriving DecidableEq, Repr

def NameRef.text : NameRef → String
  | .literal name => name
  | .placeholder text => text

inductive PathStep where
  | field (name : NameRef)
  | index (position : Nat)
deriving DecidableEq, Repr

structure Path where
  root : NameRef
  steps : List PathStep
deriving DecidableEq, Repr

namespace Path

def stepText : PathStep → String
  | .field name => "." ++ name.text
  | .index position => "[" ++ toString position ++ "]"

def text (path : Path) : String :=
  path.root.text ++ String.join (path.steps.map stepText)

end Path

inductive Segment where
  | key (name : String)
  | index (position : Nat)
deriving DecidableEq, Repr

instance : Ord Segment where
  compare
    | .key a, .key b => compare a b
    | .key _, .index _ => .lt
    | .index _, .key _ => .gt
    | .index a, .index b => compare a b

structure Location where
  top : String
  within : List Segment
deriving DecidableEq, Repr

namespace Location

instance : Ord Location where
  compare a b := (compare a.top b.top).then (compare a.within b.within)

def meets (a b : Location) : Bool :=
  a.top == b.top && (a.within.isPrefixOf b.within || b.within.isPrefixOf a.within)

end Location

namespace AttributeValue

def at? : AttributeValue → List Segment → Option AttributeValue
  | value, [] => some value
  | .map entries, .key name :: rest => (Dict.get? entries name).bind fun value => value.at? rest
  | .list elements, .index position :: rest => elements[position]?.bind fun value => value.at? rest
  | _, _ :: _ => none

end AttributeValue

namespace Item

def at? (item : Item) (location : Location) : Option AttributeValue :=
  (item.get? location.top).bind fun value => value.at? location.within

end Item
end ItemStore
