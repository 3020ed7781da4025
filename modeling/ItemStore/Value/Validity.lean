import ItemStore.Value.Equality

/-!
Values that may be stored: sets have members, none of them twice and no binary one empty, and every
number is within range. The first fault found is reported with the name it stands under.
-/

namespace ItemStore

inductive ValueError where
  | emptySet (name : String)
  | duplicateMember (name : String)
  | emptyBinaryMember (name : String)
  | number (error : NumberError)
deriving DecidableEq, Repr

def ValueError.message : ValueError → String
  | .emptySet name =>
      "One or more parameter values were invalid: Sets may not be empty for attribute " ++ name
  | .duplicateMember name =>
      "One or more parameter values were invalid: Input collection contains duplicates for " ++
        "attribute " ++ name
  | .emptyBinaryMember name =>
      "One or more parameter values were invalid: Binary sets may not contain empty values for " ++
        "attribute " ++ name
  | .number error => error.message

namespace AttributeValue

def checkNumber (text : String) : Except ValueError Unit :=
  match Number.parse text with
  | .ok _ => .ok ()
  | .error error => .error (.number error)

def checkMembers {α : Type} [DecidableEq α] (name : String) (members : List α) :
    Except ValueError Unit :=
  if members.isEmpty then .error (.emptySet name)
  else if members.Nodup then .ok ()
  else .error (.duplicateMember name)

mutual
def validate (name : String) : AttributeValue → Except ValueError Unit
  | .number text => checkNumber text
  | .stringSet members => checkMembers name members
  | .numberSet members => do
      members.forM checkNumber
      checkMembers name (members.map Number.canonical)
  | .binarySet members =>
      if members.any List.isEmpty then .error (.emptyBinaryMember name)
      else checkMembers name members
  | .list elements => validateElements name elements
  | .map entries => validateEntries entries
  | .string _ | .binary _ | .boolean _ | .null _ => .ok ()

def validateElements (name : String) : List AttributeValue → Except ValueError Unit
  | [] => .ok ()
  | value :: rest => do
      validate name value
      validateElements name rest

def validateEntries : List (String × AttributeValue) → Except ValueError Unit
  | [] => .ok ()
  | (name, value) :: rest => do
      validate name value
      validateEntries rest
end

end AttributeValue

namespace Item

def validate (item : Item) : Except ValueError Unit :=
  AttributeValue.validateEntries item

end Item
end ItemStore
