import ItemStore.Expression.KeyCondition
import ItemStore.Key.Order
import ItemStore.Proofs.Outcomes
import ItemStore.Table.Key

/-!
A key condition against the expression it was compiled from. Both say the same of an item unless
the key condition selects it by two bounds of different types: rows are in the order of all key
values, texts before numbers before bytes, while the expression compares values of one type only.
-/

namespace ItemStore

namespace KeyValue

theorem ofAttribute?_of_ofNamed {name : String} {value : AttributeValue} {key : KeyValue}
    (valid : ofNamed name value = .ok key) : ofAttribute? value = some key := by
  cases value with
  | string text =>
      simp only [ofNamed] at valid
      split at valid
      · cases valid
      · cases valid
        rfl
  | number text =>
      simp only [ofNamed] at valid
      split at valid
      · rename_i parsed read
        cases valid
        simp only [ofAttribute?, read]
      · cases valid
  | binary bytes =>
      simp only [ofNamed] at valid
      split at valid
      · cases valid
      · cases valid
        rfl
  | stringSet _ | numberSet _ | binarySet _ | boolean _ | null _ | list _ | map _ => cases valid

theorem ofAttribute?_cases {value : AttributeValue} {key : KeyValue}
    (valid : ofAttribute? value = some key) :
    (∃ text, value = .string text ∧ key = .string text) ∨
    (∃ text parsed, value = .number text ∧ key = .number parsed ∧
      Number.parse text = .ok parsed) ∨
    (∃ bytes, value = .binary bytes ∧ key = .binary bytes) := by
  cases value with
  | string text =>
      cases valid
      exact Or.inl ⟨text, rfl, rfl⟩
  | number text =>
      simp only [ofAttribute?] at valid
      split at valid
      · rename_i parsed read
        cases valid
        exact Or.inr (Or.inl ⟨text, parsed, rfl, rfl, read⟩)
      · cases valid
  | binary bytes =>
      cases valid
      exact Or.inr (Or.inr ⟨bytes, rfl, rfl⟩)
  | stringSet _ | numberSet _ | binarySet _ | boolean _ | null _ | list _ | map _ => cases valid

theorem beq_eq_compare (a b : KeyValue) : (a == b) = (compare a b == .eq) := by
  rw [Bool.eq_iff_iff, beq_iff_eq, beq_iff_eq, Std.LawfulEqOrd.compare_eq_iff_eq]

end KeyValue

theorem Table.keyPart_ok {item : Item} {name : String} {key : KeyValue}
    (ok : Table.keyPart item name = .ok key) :
    ∃ value, item.get? name = some value ∧ KeyValue.ofAttribute? value = some key := by
  simp only [keyPart] at ok
  split at ok
  · rename_i value found
    exact ⟨value, found, KeyValue.ofAttribute?_of_ofNamed ok⟩
  · cases ok

/-! Attribute values that are key values compare as their keys do. -/

section Keyed

open KeyValue (ofAttribute? ofAttribute?_cases)

variable {left right : AttributeValue} {leftKey rightKey : KeyValue}
  (leftKeyed : ofAttribute? left = some leftKey) (rightKeyed : ofAttribute? right = some rightKey)

include leftKeyed rightKeyed

theorem AttributeValue.compare?_keyed :
    left.compare? right =
      if leftKey.sameType rightKey then some (compare leftKey rightKey) else none := by
  rcases ofAttribute?_cases leftKeyed with
    ⟨a, rfl, rfl⟩ | ⟨a, x, rfl, rfl, readA⟩ | ⟨a, rfl, rfl⟩ <;>
    rcases ofAttribute?_cases rightKeyed with
      ⟨b, rfl, rfl⟩ | ⟨b, y, rfl, rfl, readB⟩ | ⟨b, rfl, rfl⟩
  case inr.inl.inr.inl => simp [compare?, KeyValue.sameType, Number.compareTexts?, readA, readB]
  all_goals rfl

theorem AttributeValue.beq_keyed : (left == right) = (leftKey == rightKey) := by
  rcases ofAttribute?_cases leftKeyed with
    ⟨a, rfl, rfl⟩ | ⟨a, x, rfl, rfl, readA⟩ | ⟨a, rfl, rfl⟩ <;>
    rcases ofAttribute?_cases rightKeyed with
      ⟨b, rfl, rfl⟩ | ⟨b, y, rfl, rfl, readB⟩ | ⟨b, rfl, rfl⟩
  case inr.inl.inr.inl =>
      rw [KeyValue.beq_eq_compare, KeyValue.compare_number]
      simp only [BEq.beq, equal, equalNumbers, Number.compareTexts?, readA, readB]
  case inl.inl =>
      change (a == b) = _
      rw [Bool.eq_iff_iff, beq_iff_eq, beq_iff_eq, KeyValue.string.injEq]
  case inr.inr.inr.inr =>
      change (a == b) = _
      rw [Bool.eq_iff_iff, beq_iff_eq, beq_iff_eq, KeyValue.binary.injEq]
  all_goals rfl

theorem AttributeValue.beginsWith_keyed :
    left.beginsWith right = leftKey.startsWith rightKey := by
  rcases ofAttribute?_cases leftKeyed with
    ⟨a, rfl, rfl⟩ | ⟨a, x, rfl, rfl, readA⟩ | ⟨a, rfl, rfl⟩ <;>
    rcases ofAttribute?_cases rightKeyed with
      ⟨b, rfl, rfl⟩ | ⟨b, y, rfl, rfl, readB⟩ | ⟨b, rfl, rfl⟩ <;>
    rfl

end Keyed

namespace SortCondition

def boundsAlike : SortCondition → Bool
  | .between low high => low.sameType high
  | _ => true

variable {value : KeyValue}

theorem matching_between_alike {low high : KeyValue} (alike : low.sameType high = true) :
    (between low high).matching value =
      ((greaterEqual low).matching value && (lessEqual high).matching value) := by
  have types : value.sameType low = value.sameType high := by
    cases value <;> cases low <;> cases high <;> first | rfl | cases alike
  simp only [matching, types]
  cases value.sameType high <;> simp

theorem between_unlike {low high : KeyValue} (unlike : low.sameType high = false) :
    ((greaterEqual low).matching value && (lessEqual high).matching value) = false := by
  cases like : value.sameType low with
  | false => simp [matching, like]
  | true =>
      have other : value.sameType high = false := by
        cases value <;> cases low <;> cases high <;>
          first | rfl | exact Bool.noConfusion like | exact Bool.noConfusion unlike
      simp [matching, other]

theorem matching_between (low high : KeyValue) :
    ((greaterEqual low).matching value && (lessEqual high).matching value) =
      ((between low high).matching value && (between low high).boundsAlike) := by
  cases alike : low.sameType high with
  | true => rw [matching_between_alike alike, boundsAlike, alike, Bool.and_true]
  | false => rw [between_unlike alike, boundsAlike, alike, Bool.and_false]

end SortCondition

namespace KeyCondition

section Terms

variable {bindings : Bindings} {item : Item} {target : Path} {name placeholder : String}
  {value operand : AttributeValue} {key operandKey : KeyValue} {asked : SortCondition}

theorem keyValue_ok (ok : keyValue value = .ok key) : KeyValue.ofAttribute? value = some key := by
  simp only [keyValue] at ok
  split at ok
  · rename_i keyed
    cases ok
    exact keyed
  · cases ok

theorem keyName_ok (named : keyName bindings target = .ok name) :
    bindings.lookup item target = .ok (item.get? name) := by
  obtain ⟨location, resolved, top⟩ := bind_ok named
  split at top
  · rename_i whole
    cases top
    have plain : location.within = [] := List.isEmpty_iff.mp whole
    rw [Bindings.lookup, resolved]
    change Except.ok (item.at? location) = _
    rw [Item.at?, plain]
    cases item.get? location.top <;> rfl
  · cases top

theorem ofComparison_ok {comparator : Comparator}
    (ok : ofComparison bindings target comparator placeholder = .ok (name, asked)) :
    ∃ operand operandKey, bindings.value placeholder = .ok operand ∧
      KeyValue.ofAttribute? operand = some operandKey ∧
      ofComparator operandKey comparator = .ok asked ∧ keyName bindings target = .ok name := by
  obtain ⟨operand, valued, ok⟩ := bind_ok ok
  obtain ⟨operandKey, keyed, ok⟩ := bind_ok ok
  obtain ⟨condition, compared, ok⟩ := bind_ok ok
  obtain ⟨found, named, ok⟩ := bind_ok ok
  cases ok
  exact ⟨operand, operandKey, valued, keyValue_ok keyed, compared, named⟩

theorem boundsAlike_ofComparator {comparator : Comparator}
    (ok : ofComparator operandKey comparator = .ok asked) : asked.boundsAlike = true := by
  cases comparator <;> cases ok <;> rfl

theorem satisfies_ofComparator {comparator : Comparator}
    (keyed : KeyValue.ofAttribute? value = some key)
    (operandKeyed : KeyValue.ofAttribute? operand = some operandKey)
    (ok : ofComparator operandKey comparator = .ok asked) :
    value.satisfies comparator operand = asked.matching key := by
  have order := AttributeValue.compare?_keyed keyed operandKeyed
  cases comparator <;> cases ok
  case equal => exact AttributeValue.beq_keyed keyed operandKeyed
  all_goals
    simp only [AttributeValue.satisfies, SortCondition.matching, order]
    cases key.sameType operandKey <;> cases compare key operandKey <;> rfl

theorem satisfies_flipped (comparator : Comparator)
    (keyed : KeyValue.ofAttribute? value = some key)
    (operandKeyed : KeyValue.ofAttribute? operand = some operandKey) :
    operand.satisfies comparator value = value.satisfies comparator.flipped operand := by
  have types : operandKey.sameType key = key.sameType operandKey := by
    cases key <;> cases operandKey <;> rfl
  have swapped : compare operandKey key = (compare key operandKey).swap :=
    Std.OrientedOrd.eq_swap
  cases comparator <;>
    simp only [AttributeValue.satisfies, Comparator.flipped,
      AttributeValue.beq_keyed keyed operandKeyed, AttributeValue.beq_keyed operandKeyed keyed,
      AttributeValue.compare?_keyed keyed operandKeyed,
      AttributeValue.compare?_keyed operandKeyed keyed, types, swapped, Bool.beq_comm]
  case less | lessEqual | greater | greaterEqual =>
      cases key.sameType operandKey <;> cases compare key operandKey <;> rfl

end Terms

def Term.condition : Term → Condition
  | .compare left comparator right => .compare left comparator right
  | .between value low high => .between value low high
  | .beginsWith target start => .beginsWith target start

theorem evaluate_of_ofTerm {bindings : Bindings} {item : Item} {term : Term} {name : String}
    {asked : SortCondition} {value : AttributeValue} {key : KeyValue}
    (ok : ofTerm bindings term = .ok (name, asked)) (found : item.get? name = some value)
    (keyed : KeyValue.ofAttribute? value = some key) :
    term.condition.evaluate bindings item =
      .ok (asked.matching key && asked.boundsAlike) := by
  unfold ofTerm at ok
  split at ok
  case h_1 target comparator placeholder =>
      obtain ⟨operand, operandKey, valued, operandKeyed, compared, named⟩ := ofComparison_ok ok
      rw [Term.condition, Condition.evaluate, Operand.evaluate, keyName_ok named, found,
        Operand.evaluate, valued, boundsAlike_ofComparator compared, Bool.and_true,
        ← satisfies_ofComparator keyed operandKeyed compared]
      rfl
  case h_2 placeholder comparator target =>
      obtain ⟨operand, operandKey, valued, operandKeyed, compared, named⟩ := ofComparison_ok ok
      rw [Term.condition, Condition.evaluate, Operand.evaluate, keyName_ok named, found,
        Operand.evaluate, valued, boundsAlike_ofComparator compared, Bool.and_true,
        ← satisfies_ofComparator keyed operandKeyed compared,
        ← satisfies_flipped comparator keyed operandKeyed]
      rfl
  case h_4 target first second =>
      obtain ⟨low, lowValued, ok⟩ := bind_ok ok
      obtain ⟨high, highValued, ok⟩ := bind_ok ok
      obtain ⟨_, inOrder, ok⟩ := bind_ok ok
      obtain ⟨lowKey, lowKeyed, ok⟩ := bind_ok ok
      obtain ⟨highKey, highKeyed, ok⟩ := bind_ok ok
      obtain ⟨top, named, ok⟩ := bind_ok ok
      cases ok
      have above : value.satisfies .greaterEqual low =
          (SortCondition.greaterEqual lowKey).matching key :=
        satisfies_ofComparator keyed (keyValue_ok lowKeyed) rfl
      have below : value.satisfies .lessEqual high =
          (SortCondition.lessEqual highKey).matching key :=
        satisfies_ofComparator keyed (keyValue_ok highKeyed) rfl
      rw [← SortCondition.matching_between, ← above, ← below, Term.condition, Condition.evaluate,
        Operand.evaluate, Operand.evaluate, Operand.evaluate, lowValued, highValued,
        keyName_ok named, found]
      change (do Condition.checkBounds (some low) (some high); _) = _
      rw [inOrder]
      rfl
  case h_6 target placeholder =>
      obtain ⟨start, valued, ok⟩ := bind_ok ok
      have parts : ∃ startKey, KeyValue.ofAttribute? start = some startKey ∧
          keyName bindings target = .ok name ∧ asked = .beginsWith startKey ∧
          Condition.evaluateBeginsWith (some value) (some start) =
            .ok (value.beginsWith start) := by
        cases start <;> try cases ok
        all_goals
          obtain ⟨top, named, ok⟩ := bind_ok ok
          obtain ⟨startKey, startKeyed, ok⟩ := bind_ok ok
          cases ok
          exact ⟨startKey, keyValue_ok startKeyed, named, rfl, rfl⟩
      obtain ⟨startKey, startKeyed, named, rfl, begun⟩ := parts
      rw [Term.condition, Condition.evaluate, keyName_ok named, found, Operand.evaluate, valued]
      change Condition.evaluateBeginsWith (some value) (some start) = _
      rw [begun, AttributeValue.beginsWith_keyed keyed startKeyed]
      exact congrArg Except.ok (Bool.and_true _).symm
  case h_3 | h_5 | h_7 => cases ok

def allHold (bindings : Bindings) (item : Item) : List Term → Except ExpressionError Bool
  | [] => .ok true
  | term :: rest => do
      if ← term.condition.evaluate bindings item then allHold bindings item rest else return false

theorem allHold_append (bindings : Bindings) (item : Item) (first second : List Term) :
    allHold bindings item (first ++ second) = do
      if ← allHold bindings item first then allHold bindings item second else return false := by
  induction first with
  | nil => rfl
  | cons term rest ih =>
      rw [List.cons_append, allHold, allHold, ih]
      cases term.condition.evaluate bindings item with
      | error error => rfl
      | ok held => cases held <;> rfl

theorem evaluate_of_terms {condition : Condition} {bindings : Bindings} {item : Item}
    {parts : List Term} (flat : terms condition = .ok parts) :
    condition.evaluate bindings item = allHold bindings item parts := by
  induction condition generalizing parts with
  | logical connective left right first second =>
      cases connective with
      | or => cases flat
      | and =>
          obtain ⟨before, leftFlat, flat⟩ := bind_ok flat
          obtain ⟨after, rightFlat, flat⟩ := bind_ok flat
          cases flat
          rw [allHold_append, Condition.evaluate, first leftFlat, second rightFlat]
  | compare _ _ _ | between _ _ _ | beginsWith _ _ =>
      cases flat
      rw [allHold, Term.condition]
      generalize Condition.evaluate bindings item _ = outcome
      cases outcome with
      | error error => rfl
      | ok held => cases held <;> rfl
  | among _ _ | not _ _ | attributeExists _ | attributeNotExists _ | attributeType _ _
  | contains _ _ => cases flat

def Known.holds (known : Known) (hash : KeyValue) (sort : Option KeyValue) : Bool :=
  known.hash.all (hash == ·) &&
    known.sort.all fun asked => sort.any fun value => asked.matching value && asked.boundsAlike

section Compiled

variable {bindings : Bindings} {item : Item} {hashKey : String} {sortKey : Option String}
  {hash : KeyValue} {sort : Option KeyValue}

theorem holds_add {known next : Known} {name : String} {asked : SortCondition}
    (hashed : Table.keyPart item hashKey = .ok hash)
    (sorted : sortKey.mapM (Table.keyPart item) = .ok sort)
    (ok : known.add hashKey sortKey (name, asked) = .ok next) :
    ∃ key, Table.keyPart item name = .ok key ∧
      next.holds hash sort =
        (known.holds hash sort && (asked.matching key && asked.boundsAlike)) := by
  unfold Known.add at ok
  split at ok
  · rename_i same
    rw [← eq_of_beq same] at hashed
    split at ok
    · rename_i value equal fresh
      cases ok
      have equal : asked = .equal value := equal
      refine ⟨hash, hashed, ?_⟩
      simp [Known.holds, fresh, equal, SortCondition.matching, SortCondition.boundsAlike,
        Bool.and_comm]
    · cases ok
    · cases ok
  · split at ok
    · rename_i same
      have same : sortKey = some name := eq_of_beq same
      rw [same] at sorted
      obtain ⟨key, keyed, sorted⟩ := bind_ok sorted
      cases sorted
      split at ok
      · rename_i fresh
        cases ok
        refine ⟨key, keyed, ?_⟩
        simp [Known.holds, fresh]
      · cases ok
    · cases ok

theorem holds_foldlM {parts : List Term} {known last : Known}
    (hashed : Table.keyPart item hashKey = .ok hash)
    (sorted : sortKey.mapM (Table.keyPart item) = .ok sort)
    (ok : parts.foldlM (fun known term => do
      Known.add hashKey sortKey known (← ofTerm bindings term)) known = .ok last) :
    ∃ held, allHold bindings item parts = .ok held ∧
      last.holds hash sort = (known.holds hash sort && held) := by
  induction parts generalizing known with
  | nil =>
      cases ok
      exact ⟨true, rfl, (Bool.and_true _).symm⟩
  | cons term rest ih =>
      rw [List.foldlM_cons] at ok
      obtain ⟨next, added, ok⟩ := bind_ok ok
      obtain ⟨⟨name, asked⟩, asks, added⟩ := bind_ok added
      obtain ⟨key, keyed, holds⟩ := holds_add hashed sorted added
      obtain ⟨value, found, valid⟩ := Table.keyPart_ok keyed
      obtain ⟨held, later, last⟩ := ih ok
      rw [allHold, evaluate_of_ofTerm asks found valid]
      -- Evaluation stops at a part that is false, and the key condition takes in all of them.
      cases settled : asked.matching key && asked.boundsAlike with
      | true => exact ⟨held, later, by rw [last, holds, settled, Bool.and_true]⟩
      | false => exact ⟨false, rfl, by rw [last, holds, settled, Bool.and_false, Bool.false_and]⟩

/-- Whether the condition selects the row with these key values. -/
def selects (key : KeyCondition) (hash : KeyValue) (sort : Option KeyValue) : Bool :=
  hash == key.hash && key.sort.all fun asked => sort.any asked.matching

variable {condition : Condition} {key : KeyCondition}

theorem evaluate_of_compile (compiled : compile condition bindings hashKey sortKey = .ok key)
    (hashed : Table.keyPart item hashKey = .ok hash)
    (sorted : sortKey.mapM (Table.keyPart item) = .ok sort) :
    condition.evaluate bindings item =
      .ok (key.selects hash sort && key.sort.all SortCondition.boundsAlike) := by
  obtain ⟨parts, flat, compiled⟩ := bind_ok compiled
  obtain ⟨known, added, compiled⟩ := bind_ok compiled
  obtain ⟨held, asked, holds⟩ := holds_foldlM hashed sorted added
  split at compiled
  · rename_i value bound
    cases compiled
    rw [evaluate_of_terms flat, asked]
    have meets : held = known.holds hash sort := by simpa [Known.holds] using holds.symm
    rw [meets, Known.holds, bound, selects]
    cases known.sort <;> cases sort <;> simp [Bool.and_assoc]
  · cases compiled

/-- The expression says of an item what the key condition says of its key values, unless the key
condition selects them between bounds of different types. -/
theorem evaluate_eq_selects_iff
    (compiled : compile condition bindings hashKey sortKey = .ok key)
    (hashed : Table.keyPart item hashKey = .ok hash)
    (sorted : sortKey.mapM (Table.keyPart item) = .ok sort) :
    condition.evaluate bindings item = .ok (key.selects hash sort) ↔
      (key.selects hash sort = true → ∀ asked ∈ key.sort, asked.boundsAlike = true) := by
  rw [evaluate_of_compile compiled hashed sorted, Except.ok.injEq]
  cases key.selects hash sort with
  | false => simp
  | true =>
      rw [Bool.true_and]
      cases key.sort <;> simp

theorem evaluate_eq_selects_spelledApart :
    let condition : Condition := .logical .and
      (.compare (.value ":from") .lessEqual (.path ⟨.literal "at", []⟩))
      (.compare (.path ⟨.literal "id", []⟩) .equal (.value ":id"))
    let bindings : Bindings := ⟨[], [(":from", .number "25e-1"), (":id", .string "a")]⟩
    let item : Item := [("at", .number "2.50"), ("id", .string "a")]
    let number : KeyValue := .number ⟨⟨25, -1, by decide⟩, by decide⟩
    let key : KeyCondition := ⟨.string "a", some (.greaterEqual number)⟩
    compile condition bindings "id" (some "at") = .ok key ∧
      key.selects (.string "a") (some number) = true ∧
      condition.evaluate bindings item = .ok (key.selects (.string "a") (some number)) := by
  intro condition bindings item number key
  have compiled : compile condition bindings "id" (some "at") = .ok key :=
    ok_of_toOption (by decide +kernel)
  refine ⟨compiled, by decide +kernel, ?_⟩
  refine (evaluate_eq_selects_iff compiled rfl (ok_of_toOption (by decide +kernel))).mpr ?_
  exact fun _ asked member => by cases member; rfl

/-- A text between the text "a" and the number 5 in the order of keys, which no text is for the
expression. -/
theorem selects_between_text_and_number :
    let condition : Condition := .logical .and
      (.compare (.path ⟨.literal "id", []⟩) .equal (.value ":id"))
      (.between (.path ⟨.literal "at", []⟩) (.value ":low") (.value ":high"))
    let bindings : Bindings :=
      ⟨[], [(":high", .number "5"), (":id", .string "a"), (":low", .string "a")]⟩
    let item : Item := [("at", .string "z"), ("id", .string "a")]
    let key : KeyCondition :=
      ⟨.string "a", some (.between (.string "a") (.number ⟨⟨5, 0, by decide⟩, by decide⟩))⟩
    compile condition bindings "id" (some "at") = .ok key ∧
      Table.keyPart item "id" = .ok (.string "a") ∧ Table.keyPart item "at" = .ok (.string "z") ∧
      key.selects (.string "a") (some (.string "z")) = true ∧
      condition.evaluate bindings item = .ok false := by
  exact ⟨ok_of_toOption (by decide +kernel), rfl, rfl, by decide +kernel,
    ok_of_toOption (by decide +kernel)⟩

end Compiled

end KeyCondition

end ItemStore
