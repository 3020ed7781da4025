/-!
Finite maps as lists of bindings in ascending key order, each key bound once. Building one by
`insert` alone keeps that order, so equal maps are equal lists.
-/

namespace ItemStore

abbrev Dict (κ : Type) (α : Type) := List (κ × α)

namespace Dict

variable {κ α β : Type} [Ord κ]

def get? : Dict κ α → κ → Option α
  | [], _ => none
  | (bound, value) :: rest, key =>
      if compare bound key == .eq then some value else get? rest key

def contains (entries : Dict κ α) (key : κ) : Bool :=
  (get? entries key).isSome

def insert : Dict κ α → κ → α → Dict κ α
  | [], key, value => [(key, value)]
  | (bound, current) :: rest, key, value =>
      match compare key bound with
      | .lt => (key, value) :: (bound, current) :: rest
      | .eq => (key, value) :: rest
      | .gt => (bound, current) :: insert rest key value

def erase (entries : Dict κ α) (key : κ) : Dict κ α :=
  entries.filter fun entry => compare entry.1 key != .eq

def ofList (bindings : List (κ × α)) : Dict κ α :=
  bindings.foldl (fun entries binding => insert entries binding.1 binding.2) []

def keys (entries : Dict κ α) : List κ :=
  entries.map Prod.fst

def mapValues (f : α → β) (entries : Dict κ α) : Dict κ β :=
  entries.map fun entry => (entry.1, f entry.2)

def Ascending (entries : Dict κ α) : Prop :=
  entries.Pairwise fun earlier later => compare earlier.1 later.1 = .lt

end Dict

end ItemStore
