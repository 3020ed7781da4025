/-!
Settings of an engine, and their reading from named texts.
-/

namespace ItemStore

structure Config where
  defaultPageSize : Nat
  maxPageSize : Nat
  ttlOnRead : Bool
  strictPlaceholders : Bool
deriving DecidableEq, Repr

namespace Config

def default : Config := ⟨100, 1000, true, true⟩

def readCount? (text : String) : Option Nat :=
  let digits := match text.toList with
    | '+' :: rest => rest
    | all => all
  let value := Nat.ofDigitChars 10 digits 0
  if digits.isEmpty || !digits.all Char.isDigit || value = 0 || UInt64.size ≤ value then none
  else some value

def readFlag (text : String) : Bool :=
  text == "1" || ["true", "yes"].any fun word => word.toList == text.toList.map Char.toLower

def ofSettings (setting? : String → Option String) : Config where
  defaultPageSize := ((setting? "DEFAULT_PAGE_SIZE").bind readCount?).getD default.defaultPageSize
  maxPageSize := ((setting? "MAX_PAGE_SIZE").bind readCount?).getD default.maxPageSize
  ttlOnRead := ((setting? "TTL_ON_READ").map readFlag).getD default.ttlOnRead
  strictPlaceholders :=
    ((setting? "STRICT_PLACEHOLDERS").map readFlag).getD default.strictPlaceholders

end Config
end ItemStore
