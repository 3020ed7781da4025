import ItemStore.Proofs.Number.Grammar
import ItemStore.Proofs.Outcomes
import ItemStore.Table.Key

/-!
Items share a row exactly if they have the same primary key: texts and bytes that are the same and
not empty, and numbers that denote the same value.
-/

namespace ItemStore

/-- Values that name the same part of a key. -/
inductive AttributeValue.AlikeAsKeys : AttributeValue → AttributeValue → Prop
  | string {text : String} (given : text ≠ "") : AlikeAsKeys (.string text) (.string text)
  | binary {bytes : Bytes} (given : bytes ≠ []) : AlikeAsKeys (.binary bytes) (.binary bytes)
  | number {text other : String} {value : ℚ} (storable : Storable value)
      (first : Number.Spells text value) (second : Number.Spells other value) :
      AlikeAsKeys (.number text) (.number other)

def Table.SamePrimaryKey (table : Table) (first second : Item) : Prop :=
  ∀ name ∈ table.keyNames, ∃ a b,
    first.get? name = some a ∧ second.get? name = some b ∧ a.AlikeAsKeys b

theorem Number.parse_alike_iff {text other : String} :
    (∃ number, parse text = .ok number ∧ parse other = .ok number) ↔
      ∃ value, Storable value ∧ Spells text value ∧ Spells other value := by
  have reads : ∀ {text value}, Spells text value → Storable value →
      ∃ number, parse text = .ok number ∧ number.value.toRat = value :=
    fun spells storable => parse_ok_iff.mpr ⟨spells, .storable storable⟩
  constructor
  · rintro ⟨number, first, second⟩
    obtain ⟨spells, judged⟩ := parse_ok_iff.mp ⟨number, first, rfl⟩
    obtain ⟨alsoSpells, _⟩ := parse_ok_iff.mp ⟨number, second, rfl⟩
    cases judged with
    | storable storable => exact ⟨_, storable, spells, alsoSpells⟩
  · rintro ⟨value, storable, first, second⟩
    obtain ⟨number, read, rfl⟩ := reads first storable
    obtain ⟨⟨value, fits⟩, alsoRead, same⟩ := reads second storable
    obtain rfl : value = number.value := Decimal.toRat_injective same
    exact ⟨number, read, alsoRead⟩

theorem KeyValue.ofNamed_ok {name : String} {value : AttributeValue} {part : KeyValue}
    (ok : ofNamed name value = .ok part) :
    match part with
    | .string text => text ≠ "" ∧ value = .string text
    | .number parsed => ∃ text, Number.parse text = .ok parsed ∧ value = .number text
    | .binary bytes => bytes ≠ [] ∧ value = .binary bytes := by
  cases value with
  | string text =>
      rw [ofNamed] at ok
      split at ok
      · cases ok
      · cases ok
        exact ⟨by simpa using ‹¬text.isEmpty = true›, rfl⟩
  | binary bytes =>
      rw [ofNamed] at ok
      split at ok
      · cases ok
      · cases ok
        exact ⟨by simpa using ‹¬bytes.isEmpty = true›, rfl⟩
  | number text =>
      rw [ofNamed] at ok
      split at ok
      · rename_i read
        cases ok
        exact ⟨text, read, rfl⟩
      · cases ok
  | _ => cases ok

theorem KeyValue.ofNamed_alike_iff {name : String} {a b : AttributeValue} :
    (∃ part, ofNamed name a = .ok part ∧ ofNamed name b = .ok part) ↔ a.AlikeAsKeys b := by
  constructor
  · rintro ⟨part, first, second⟩
    have one := ofNamed_ok first
    have other := ofNamed_ok second
    cases part with
    | string text =>
        obtain ⟨given, rfl⟩ := one
        obtain ⟨_, rfl⟩ := other
        exact .string given
    | binary bytes =>
        obtain ⟨given, rfl⟩ := one
        obtain ⟨_, rfl⟩ := other
        exact .binary given
    | number parsed =>
        obtain ⟨text, read, rfl⟩ := one
        obtain ⟨spelled, alsoRead, rfl⟩ := other
        obtain ⟨_, storable, spells, alsoSpells⟩ :=
          Number.parse_alike_iff.mp ⟨parsed, read, alsoRead⟩
        exact .number storable spells alsoSpells
  · intro alike
    cases alike with
    | string given => exact ⟨_, if_neg (by simpa using given), if_neg (by simpa using given)⟩
    | binary given => exact ⟨_, if_neg (by simpa using given), if_neg (by simpa using given)⟩
    | number storable first second =>
        obtain ⟨number, read, alsoRead⟩ := Number.parse_alike_iff.mpr ⟨_, storable, first, second⟩
        exact ⟨.number number, by rw [ofNamed, read], by rw [ofNamed, alsoRead]⟩

namespace Table

variable {table : Table} {first second : Item}

theorem keyPart_alike_iff {name : String} :
    (∃ part, keyPart first name = .ok part ∧ keyPart second name = .ok part) ↔
      ∃ a b, first.get? name = some a ∧ second.get? name = some b ∧ a.AlikeAsKeys b := by
  rw [keyPart, keyPart]
  cases first.get? name with
  | none => simp
  | some a =>
      cases second.get? name with
      | none => simp
      | some b => simpa using KeyValue.ofNamed_alike_iff

theorem rowKey_alike_iff :
    (∃ key, table.rowKey first = .ok key ∧ table.rowKey second = .ok key) ↔
      ∀ name ∈ table.keyNames, ∃ part, keyPart first name = .ok part ∧
        keyPart second name = .ok part := by
  rw [keyNames, List.forall_mem_cons]
  constructor
  · rintro ⟨key, one, other⟩
    obtain ⟨hash, part, one⟩ := bind_ok one
    obtain ⟨_, alsoPart, other⟩ := bind_ok other
    cases sorted : table.sortKey with
    | none =>
        rw [sorted] at one other
        cases one
        cases other
        exact ⟨⟨hash, part, alsoPart⟩, nofun⟩
    | some name =>
        rw [sorted] at one other
        obtain ⟨sort, sortPart, one⟩ := bind_ok one
        obtain ⟨_, alsoSortPart, other⟩ := bind_ok other
        cases one
        cases other
        refine ⟨⟨hash, part, alsoPart⟩, fun name member => ?_⟩
        obtain rfl := List.mem_singleton.mp member
        exact ⟨sort, sortPart, alsoSortPart⟩
  · rintro ⟨⟨hash, part, alsoPart⟩, sorts⟩
    rw [rowKey, rowKey, part, alsoPart]
    cases sorted : table.sortKey with
    | none => exact ⟨_, rfl, rfl⟩
    | some name =>
        obtain ⟨sort, sortPart, alsoSortPart⟩ := sorts name (by simp [sorted])
        refine ⟨⟨hash, [sort]⟩, ?_, ?_⟩
        · simp [sortPart]
          rfl
        · simp [alsoSortPart]
          rfl

/-- Accepted keys are one row key exactly if they are the same primary key. -/
theorem samePrimaryKey_iff : table.SamePrimaryKey first second ↔
    ∃ key, table.rowKey first = .ok key ∧ table.rowKey second = .ok key := by
  simp only [rowKey_alike_iff, keyPart_alike_iff, SamePrimaryKey]

end Table
end ItemStore
