import ItemStore.Expression.Bindings
import ItemStore.Expression.Reading

/-!
Projections: the parts of an item at given paths, with the maps and lists around them. The paths are
merged into one tree, which is then followed down the item.
-/

namespace ItemStore

inductive PathTree where
  | whole
  | children (trees : List (Segment × PathTree))

namespace PathTree

def insert : PathTree → List Segment → PathTree
  | .whole, _ => .whole
  | tree, [] => tree
  | .children trees, [segment] => .children (Dict.insert trees segment .whole)
  | .children trees, segment :: next :: rest =>
      let below := (Dict.get? trees segment).getD (.children [])
      .children (Dict.insert trees segment (below.insert (next :: rest)))

def ofLocations (locations : List Location) : PathTree :=
  locations.foldl (fun tree location => tree.insert (.key location.top :: location.within))
    (.children [])

mutual
def part? : PathTree → AttributeValue → Option AttributeValue
  | .whole, value => some value
  | .children trees, .map entries =>
      let kept := keptEntries trees entries
      if kept.isEmpty then none else some (.map kept)
  | .children trees, .list elements =>
      let kept := keptElements trees elements
      if kept.isEmpty then none else some (.list kept)
  | .children _, _ => none

def keptEntries : List (Segment × PathTree) → Item → Item
  | [], _ => []
  | (.key name, tree) :: rest, entries =>
      match (Dict.get? entries name).bind fun value => tree.part? value with
      | some part => (name, part) :: keptEntries rest entries
      | none => keptEntries rest entries
  | (.index _, _) :: rest, entries => keptEntries rest entries

def keptElements : List (Segment × PathTree) → List AttributeValue → List AttributeValue
  | [], _ => []
  | (.index position, tree) :: rest, elements =>
      match elements[position]?.bind fun value => tree.part? value with
      | some part => part :: keptElements rest elements
      | none => keptElements rest elements
  | (.key _, _) :: rest, elements => keptElements rest elements
end

end PathTree

namespace Item

def project (item : Item) : PathTree → Item
  | .whole => []
  | .children trees => PathTree.keptEntries trees item

end Item

namespace Projection

def ofTokens (tokens : List Token) : Except ExpressionError (List Path) :=
  Reading.finish (Reading.separated Reading.path tokens.length tokens)

def parse (text : String) : Except ExpressionError (List Path) := do
  ofTokens (← Reading.tokens text)

def apply (paths : List Path) (bindings : Bindings) (item : Item) : Except ExpressionError Item :=
  (paths.mapM bindings.location).map fun locations => item.project (.ofLocations locations)

end Projection
end ItemStore
