import ItemStore.Expression.Bindings
import ItemStore.Expression.Update

/-!
The places an update may write to: no part of the key, and no place twice or within another.
-/

namespace ItemStore
namespace Update

def meetingError (earlier later : Path × Location) : ExpressionError :=
  if earlier.2.within.length = later.2.within.length then .conflictingPaths earlier.1 later.1
  else .overlappingPaths earlier.1 later.1

def checkTargets (bindings : Bindings) (keyAttributes : List String) :
    List (Path × Location) → List Path → Except ExpressionError Unit
  | _, [] => .ok ()
  | seen, path :: rest => do
      let location ← bindings.location path
      if keyAttributes.contains location.top then .error (.keyAttributeUpdate location.top)
      else
        match seen.find? fun earlier => location.meets earlier.2 with
        | some earlier => .error (meetingError earlier (path, location))
        | none => checkTargets bindings keyAttributes (seen ++ [(path, location)]) rest

def validate (update : Update) (bindings : Bindings) (keyAttributes : List String) :
    Except ExpressionError Unit :=
  checkTargets bindings keyAttributes [] update.targets

end Update
end ItemStore
