import ItemStore.Proofs.Expression.Readers

/-!
The grammar of conditions. A text is read as a condition exactly if it is written for tokens from
which the grammar derives that condition, and every condition is read back from what it is printed
as, with parentheses only where precedence or grouping to the right needs them.
-/

namespace ItemStore
namespace Condition

open Reading (Reads commas extendsPath)

/-! ### The grammar -/

inductive Level where
  | disjunction
  | conjunction
  | negation
  | primary
deriving DecidableEq, Repr

def callTokens (function : TestFunction) (operands : List Operand) : List Token :=
  .word function.name :: .openParen :: (commas Operand.tokens operands ++ [.closeParen])

/-- Conditions without connectives. The functions take a path, and some of them one more operand. -/
inductive Simple : List Token → Condition → Prop
  | compare (left : Operand) (comparator : Comparator) (right : Operand) :
      Simple (left.tokens ++ .comparator comparator :: right.tokens)
        (.compare left comparator right)
  | between (value low high : Operand) :
      Simple (value.tokens ++ .keyword .between :: (low.tokens ++ .keyword .and :: high.tokens))
        (.between value low high)
  | among (value : Operand) {candidates : List Operand} : candidates ≠ [] →
      Simple (value.tokens ++ .keyword .among :: .openParen ::
        (commas Operand.tokens candidates ++ [.closeParen])) (.among value candidates)
  | attributeExists (path : Path) :
      Simple (callTokens .attributeExists [.path path]) (.attributeExists path)
  | attributeNotExists (path : Path) :
      Simple (callTokens .attributeNotExists [.path path]) (.attributeNotExists path)
  | attributeType (path : Path) (type : Operand) :
      Simple (callTokens .attributeType [.path path, type]) (.attributeType path type)
  | beginsWith (path : Path) (start : Operand) :
      Simple (callTokens .beginsWith [.path path, start]) (.beginsWith path start)
  | contains (path : Path) (part : Operand) :
      Simple (callTokens .contains [.path path, part]) (.contains path part)

/-- The tokens from which a condition is derived at a level. Both connectives group to the left, and
parentheses leave no trace in the condition. -/
inductive Derives : Level → List Token → Condition → Prop
  | disjunct {tokens : List Token} {condition : Condition} :
      Derives .conjunction tokens condition → Derives .disjunction tokens condition
  | or {left right : List Token} {one other : Condition} :
      Derives .disjunction left one → Derives .conjunction right other →
      Derives .disjunction (left ++ .keyword .or :: right) (.logical .or one other)
  | conjunct {tokens : List Token} {condition : Condition} :
      Derives .negation tokens condition → Derives .conjunction tokens condition
  | and {left right : List Token} {one other : Condition} :
      Derives .conjunction left one → Derives .negation right other →
      Derives .conjunction (left ++ .keyword .and :: right) (.logical .and one other)
  | not {tokens : List Token} {condition : Condition} :
      Derives .negation tokens condition →
      Derives .negation (.keyword .not :: tokens) (.not condition)
  | plain {tokens : List Token} {condition : Condition} :
      Derives .primary tokens condition → Derives .negation tokens condition
  | group {tokens : List Token} {condition : Condition} :
      Derives .disjunction tokens condition →
      Derives .primary (.openParen :: (tokens ++ [.closeParen])) condition
  | simple {tokens : List Token} {condition : Condition} :
      Simple tokens condition → Derives .primary tokens condition

/-! ### Simple conditions -/

theorem ofName?_name (function : TestFunction) :
    TestFunction.ofName? function.name = some function := by
  cases function <;> decide

theorem name_of_ofName? {name : String} {function : TestFunction}
    (found : TestFunction.ofName? name = some function) : function.name = name := by
  unfold TestFunction.ofName? at found
  have same := List.find?_some found
  exact beq_iff_eq.mp same

theorem simple_of_ofCall {function : TestFunction} {operands : List Operand} {condition : Condition}
    (called : ofCall function operands = .ok condition) :
    Simple (callTokens function operands) condition := by
  unfold ofCall at called
  split at called
  · cases called
  split at called
  · split at called
    · rename_i applied
      cases called
      unfold call? at applied
      split at applied <;> cases applied <;> constructor
    · cases called
  · cases called
  · cases called

theorem comparison_written {left : Operand} {tokens rest : List Token} {condition : Condition}
    (read : comparison left tokens = .ok (condition, rest)) :
    ∃ used, Simple (left.tokens ++ used) condition ∧ tokens = used ++ rest := by
  have operand {tokens rest : List Token} {operand : Operand}
      (read : Condition.operand tokens = .ok (operand, rest)) :
      tokens = operand.tokens ++ rest := Reading.operand_reads.written read
  unfold comparison at read
  split at read
  · rename_i comparator tokens
    obtain ⟨⟨right, middle⟩, second, same⟩ := bind_ok read
    cases same
    refine ⟨_, .compare left comparator right, ?_⟩
    rw [operand second]
    rfl
  · obtain ⟨⟨low, middle⟩, second, read⟩ := bind_ok read
    obtain ⟨others, skipped, read⟩ := bind_ok read
    obtain ⟨⟨high, last⟩, third, same⟩ := bind_ok read
    cases same
    refine ⟨_, .between left low high, ?_⟩
    rw [operand second, Reading.skip_ok skipped, operand third]
    simp
  · obtain ⟨others, skipped, read⟩ := bind_ok read
    obtain ⟨⟨candidates, last⟩, listed, same⟩ := bind_ok read
    cases same
    obtain ⟨begun, written⟩ := Reading.operands_written listed
    refine ⟨_, .among left begun, ?_⟩
    rw [Reading.skip_ok skipped, written]
    simp
  · cases read

theorem simple_written {tokens rest : List Token} {condition : Condition}
    (read : simple tokens = .ok (condition, rest)) :
    ∃ used, Simple used condition ∧ tokens = used ++ rest := by
  have plain {tokens : List Token}
      (read : (operand tokens >>= fun left => comparison left.1 left.2) = .ok (condition, rest)) :
      ∃ used, Simple used condition ∧ tokens = used ++ rest := by
    obtain ⟨⟨left, middle⟩, first, compared⟩ := bind_ok read
    have compared : comparison left middle = .ok (condition, rest) := compared
    obtain ⟨used, simple, rfl⟩ := comparison_written compared
    exact ⟨left.tokens ++ used, simple, by simp [Reading.operand_reads.written first]⟩
  unfold simple at read
  split at read
  · split at read
    · rename_i name others _ function found
      obtain ⟨⟨operands, middle⟩, listed, read⟩ := bind_ok read
      obtain ⟨result, called, same⟩ := bind_ok read
      cases same
      refine ⟨_, simple_of_ofCall called, ?_⟩
      rw [(Reading.operands_written listed).2, callTokens, name_of_ofName? found]
      simp
    · exact plain read
  · exact plain read

theorem simple_call {function : TestFunction} {operands : List Operand} {condition : Condition}
    (begun : operands ≠ []) (called : ofCall function operands = .ok condition)
    (rest : List Token) :
    simple (callTokens function operands ++ rest) = .ok (condition, rest) := by
  have listed := Reading.operands_reads begun rest
  simp [callTokens, simple, ofName?_name, listed, called, bind, Except.bind, pure, Except.pure]

theorem simple_operand (left : Operand) {rest : List Token} (stops : Stops extendsPath rest) :
    simple (left.tokens ++ rest) = comparison left rest := by
  have first := Reading.operand_reads.reads left stops
  have plain : (operand (left.tokens ++ rest) >>= fun left => comparison left.1 left.2) =
      comparison left rest := by
    rw [first]
    rfl
  unfold simple
  split
  · rename_i name others call
    have unknown : TestFunction.ofName? name = none := by
      cases left with
      | path target => exact absurd call (Reading.path_ne_call target stops _ _)
      | value placeholder => cases (List.cons.inj call).1
      | size target =>
          cases (List.cons.inj call).1
          decide
    simp only [unknown]
    exact plain
  · exact plain

theorem comparison_compare (left : Operand) (comparator : Comparator) (right : Operand)
    {rest : List Token} (stops : Stops extendsPath rest) :
    comparison left (.comparator comparator :: (right.tokens ++ rest)) =
      .ok (.compare left comparator right, rest) := by
  have second := Reading.operand_reads.reads right stops
  simp [comparison, second, bind, Except.bind, pure, Except.pure]

theorem comparison_between (left low high : Operand) {rest : List Token}
    (stops : Stops extendsPath rest) :
    comparison left (.keyword .between :: (low.tokens ++ .keyword .and :: (high.tokens ++ rest))) =
      .ok (.between left low high, rest) := by
  have middle : Stops extendsPath (.keyword .and :: (high.tokens ++ rest)) := Stops.cons_iff.mpr rfl
  have second := Reading.operand_reads.reads low middle
  have third := Reading.operand_reads.reads high stops
  simp [comparison, second, third, bind, Except.bind, pure, Except.pure]

theorem comparison_among (left : Operand) {candidates : List Operand} (begun : candidates ≠ [])
    (rest : List Token) :
    comparison left (.keyword .among :: .openParen ::
      (commas Operand.tokens candidates ++ .closeParen :: rest)) =
      .ok (.among left candidates, rest) := by
  have listed := Reading.operands_reads begun rest
  simp [comparison, listed, bind, Except.bind, pure, Except.pure]

theorem Simple.reads {used rest : List Token} {condition : Condition}
    (derived : Simple used condition) (stops : Stops extendsPath rest) :
    simple (used ++ rest) = .ok (condition, rest) := by
  have compared {left : Operand} {first : Token} {others : List Token}
      (plain : extendsPath first = false)
      (read : comparison left (first :: others) = .ok (condition, rest)) :
      simple (left.tokens ++ first :: others) = .ok (condition, rest) := by
    rw [simple_operand left (Stops.cons_iff.mpr plain), read]
  cases derived with
  | compare left comparator right =>
      simpa using compared rfl (comparison_compare left comparator right stops)
  | between value low high =>
      simpa using compared rfl (comparison_between value low high stops)
  | among value begun => simpa using compared rfl (comparison_among value begun rest)
  | attributeExists path => exact simple_call (by simp) rfl rest
  | attributeNotExists path => exact simple_call (by simp) rfl rest
  | attributeType path type => exact simple_call (by simp) rfl rest
  | beginsWith path start => exact simple_call (by simp) rfl rest
  | contains path part => exact simple_call (by simp) rfl rest

theorem Simple.head {used : List Token} {condition : Condition} (derived : Simple used condition) :
    ∃ first others, used = first :: others ∧ first ≠ .openParen ∧ first ≠ .keyword .not := by
  have operand (operand : Operand) : ∃ first others, operand.tokens = first :: others ∧
      first ≠ .openParen ∧ first ≠ .keyword .not := by
    cases operand with
    | path target =>
        refine ⟨_, _, rfl, ?_⟩
        cases target.root <;> simp [NameRef.token]
    | value placeholder => exact ⟨_, _, rfl, by simp⟩
    | size target => exact ⟨_, _, rfl, by simp⟩
  cases derived with
  | compare left _ _ | between left _ _ | among left _ =>
      obtain ⟨first, others, same, plain⟩ := operand left
      exact ⟨first, _, by rw [same]; rfl, plain⟩
  | _ => exact ⟨_, _, rfl, by simp⟩

/-! ### Levels -/

def Level.read : Level → Nat → List Token → Except ExpressionError (Reading Condition)
  | .disjunction => Condition.disjunction
  | .conjunction => Condition.conjunction
  | .negation => Condition.negation
  | .primary => Condition.primary

def Level.goOn : Level → Nat → Condition → List Token → Except ExpressionError (Reading Condition)
  | .disjunction => moreDisjuncts
  | .conjunction => moreConjuncts
  | .negation | .primary => fun _ condition rest => .ok (condition, rest)

def Level.height : Level → Nat
  | .disjunction => 4
  | .conjunction => 3
  | .negation => 2
  | .primary => 1

def Level.extends : Level → Token → Bool
  | .disjunction, token => extendsPath token || token == .keyword .and
  | _, token => extendsPath token

structure Sound (fuel : Nat) : Prop where
  level : ∀ (level : Level) {tokens rest : List Token} {condition : Condition},
    level.read fuel tokens = .ok (condition, rest) →
      ∃ used, Derives level used condition ∧ tokens = used ++ rest
  disjuncts : ∀ {before tokens rest : List Token} {left condition : Condition},
    Derives .disjunction before left → moreDisjuncts fuel left tokens = .ok (condition, rest) →
      ∃ used, Derives .disjunction (before ++ used) condition ∧ tokens = used ++ rest
  conjuncts : ∀ {before tokens rest : List Token} {left condition : Condition},
    Derives .conjunction before left → moreConjuncts fuel left tokens = .ok (condition, rest) →
      ∃ used, Derives .conjunction (before ++ used) condition ∧ tokens = used ++ rest

theorem sound_zero : Sound 0 where
  level level tokens rest condition read := by
    cases level <;> cases read
  disjuncts {before tokens rest left condition} derived read := by
    unfold moreDisjuncts at read
    split at read
    · cases read
    · contradiction
    · cases read
      exact ⟨[], by simpa using derived, rfl⟩
  conjuncts {before tokens rest left condition} derived read := by
    unfold moreConjuncts at read
    split at read
    · cases read
    · contradiction
    · cases read
      exact ⟨[], by simpa using derived, rfl⟩

section Succ

variable {fuel : Nat} {tokens rest : List Token} {condition : Condition}

theorem Sound.disjunction (sound : Sound fuel)
    (read : Condition.disjunction (fuel + 1) tokens = .ok (condition, rest)) :
    ∃ used, Derives .disjunction used condition ∧ tokens = used ++ rest := by
  obtain ⟨⟨left, middle⟩, first, later⟩ := bind_ok read
  obtain ⟨before, derived, rfl⟩ := sound.level .conjunction first
  obtain ⟨used, derived, rfl⟩ := sound.disjuncts (.disjunct derived) later
  exact ⟨before ++ used, derived, by simp⟩

theorem Sound.conjunction (sound : Sound fuel)
    (read : Condition.conjunction (fuel + 1) tokens = .ok (condition, rest)) :
    ∃ used, Derives .conjunction used condition ∧ tokens = used ++ rest := by
  obtain ⟨⟨left, middle⟩, first, later⟩ := bind_ok read
  obtain ⟨before, derived, rfl⟩ := sound.level .negation first
  obtain ⟨used, derived, rfl⟩ := sound.conjuncts (.conjunct derived) later
  exact ⟨before ++ used, derived, by simp⟩

theorem Sound.negation (sound : Sound fuel)
    (read : Condition.negation (fuel + 1) tokens = .ok (condition, rest)) :
    ∃ used, Derives .negation used condition ∧ tokens = used ++ rest := by
  unfold Condition.negation at read
  split at read
  · contradiction
  · rename_i others same
    cases same
    obtain ⟨⟨inner, middle⟩, later, same⟩ := bind_ok read
    cases same
    obtain ⟨used, derived, rfl⟩ := sound.level .negation later
    exact ⟨.keyword .not :: used, .not derived, rfl⟩
  · rename_i same _
    cases same
    obtain ⟨used, derived, rfl⟩ := sound.level .primary read
    exact ⟨used, .plain derived, rfl⟩

theorem Sound.primary (sound : Sound fuel)
    (read : Condition.primary (fuel + 1) tokens = .ok (condition, rest)) :
    ∃ used, Derives .primary used condition ∧ tokens = used ++ rest := by
  unfold Condition.primary at read
  split at read
  · contradiction
  · rename_i others same
    cases same
    obtain ⟨⟨inner, middle⟩, within, read⟩ := bind_ok read
    obtain ⟨left, closed, same⟩ := bind_ok read
    cases same
    obtain ⟨used, derived, rfl⟩ := sound.level .disjunction within
    rw [Reading.skip_ok closed]
    exact ⟨_, .group derived, by simp⟩
  · obtain ⟨used, derived, rfl⟩ := simple_written read
    exact ⟨used, .simple derived, rfl⟩

theorem Sound.moreDisjuncts (sound : Sound fuel) {before : List Token} {left : Condition}
    (derived : Derives .disjunction before left)
    (read : Condition.moreDisjuncts (fuel + 1) left tokens = .ok (condition, rest)) :
    ∃ used, Derives .disjunction (before ++ used) condition ∧ tokens = used ++ rest := by
  unfold Condition.moreDisjuncts at read
  split at read
  · contradiction
  · rename_i others same
    cases same
    obtain ⟨⟨right, middle⟩, second, later⟩ := bind_ok read
    obtain ⟨next, also, rfl⟩ := sound.level .conjunction second
    obtain ⟨used, derived, rfl⟩ := sound.disjuncts (.or derived also) later
    exact ⟨.keyword .or :: (next ++ used), by simpa using derived, by simp⟩
  · cases read
    exact ⟨[], by simpa using derived, rfl⟩

theorem Sound.moreConjuncts (sound : Sound fuel) {before : List Token} {left : Condition}
    (derived : Derives .conjunction before left)
    (read : Condition.moreConjuncts (fuel + 1) left tokens = .ok (condition, rest)) :
    ∃ used, Derives .conjunction (before ++ used) condition ∧ tokens = used ++ rest := by
  unfold Condition.moreConjuncts at read
  split at read
  · contradiction
  · rename_i others same
    cases same
    obtain ⟨⟨right, middle⟩, second, later⟩ := bind_ok read
    obtain ⟨next, also, rfl⟩ := sound.level .negation second
    obtain ⟨used, derived, rfl⟩ := sound.conjuncts (.and derived also) later
    exact ⟨.keyword .and :: (next ++ used), by simpa using derived, by simp⟩
  · cases read
    exact ⟨[], by simpa using derived, rfl⟩

end Succ

/-- Every reader hands less fuel on than it was given, so the induction is on the fuel. -/
theorem sound : ∀ fuel : Nat, Sound fuel
  | 0 => sound_zero
  | fuel + 1 => by
      have less := sound fuel
      constructor
      · intro level tokens rest condition read
        cases level with
        | disjunction => exact less.disjunction read
        | conjunction => exact less.conjunction read
        | negation => exact less.negation read
        | primary => exact less.primary read
      · exact less.moreDisjuncts
      · exact less.moreConjuncts

/-! ### Reading what is derived -/

theorem moreDisjuncts_ended {fuel : Nat} {condition : Condition} {rest : List Token}
    (ended : ∀ more, rest ≠ .keyword .or :: more) :
    moreDisjuncts fuel condition rest = .ok (condition, rest) := by
  unfold moreDisjuncts
  split
  · exact absurd rfl (ended _)
  · exact absurd rfl (ended _)
  · rfl

theorem moreConjuncts_ended {fuel : Nat} {condition : Condition} {rest : List Token}
    (ended : ∀ more, rest ≠ .keyword .and :: more) :
    moreConjuncts fuel condition rest = .ok (condition, rest) := by
  unfold moreConjuncts
  split
  · exact absurd rfl (ended _)
  · exact absurd rfl (ended _)
  · rfl

theorem stops_of_disjunction {rest : List Token} (stops : Stops Level.disjunction.extends rest) :
    Stops extendsPath rest :=
  fun first head => (Bool.or_eq_false_iff.mp (stops first head)).1

theorem Derives.head {used : List Token} {condition : Condition}
    (derived : Derives .primary used condition) (rest more : List Token) :
    used ++ rest ≠ .keyword .not :: more := by
  intro same
  cases derived with
  | group _ => cases (List.cons.inj same).1
  | simple simple =>
      obtain ⟨first, others, rfl, _, other⟩ := simple.head
      exact other (List.cons.inj same).1

theorem exists_succ_of_lt {n fuel : Nat} (enough : n + 1 ≤ fuel) :
    ∃ less, fuel = less + 1 ∧ n ≤ less :=
  ⟨fuel - 1, by omega, by omega⟩

/-- With enough fuel `used` is read as `condition`, before any token that does not go on with it.
More of the same level may follow. -/
def Readable (level : Level) (used : List Token) (condition : Condition) : Prop :=
  ∀ (fuel : Nat) (rest : List Token),
    4 * (used.length + rest.length) + level.height ≤ fuel → Stops level.extends rest →
    ∃ left, 4 * rest.length ≤ left ∧
      level.read fuel (used ++ rest) = level.goOn left condition rest

namespace Readable

variable {used others : List Token} {condition one other : Condition}

theorem conjunction (readable : Readable .conjunction used condition) {fuel : Nat}
    {rest : List Token} (enough : 4 * (used.length + rest.length) + 3 ≤ fuel)
    (stops : Stops Level.disjunction.extends rest) :
    Condition.conjunction fuel (used ++ rest) = .ok (condition, rest) := by
  have ended : ∀ more, rest ≠ .keyword .and :: more := by
    rintro more rfl
    cases Stops.cons_iff.mp stops
  obtain ⟨left, _, read⟩ := readable fuel rest enough (stops_of_disjunction stops)
  exact read.trans (moreConjuncts_ended ended)

theorem negation (readable : Readable .negation used condition) {fuel : Nat}
    {rest : List Token} (enough : 4 * (used.length + rest.length) + 2 ≤ fuel)
    (stops : Stops extendsPath rest) :
    Condition.negation fuel (used ++ rest) = .ok (condition, rest) := by
  obtain ⟨left, _, read⟩ := readable fuel rest enough stops
  exact read

theorem disjunct (readable : Readable .conjunction used condition) :
    Readable .disjunction used condition := by
  intro fuel rest enough stops
  obtain ⟨less, rfl, enough'⟩ := exists_succ_of_lt enough
  refine ⟨less, by omega, ?_⟩
  simp only [Level.read, Level.goOn, Condition.disjunction]
  rw [readable.conjunction enough' stops]
  rfl

theorem or (left : Readable .disjunction used one) (right : Readable .conjunction others other) :
    Readable .disjunction (used ++ .keyword .or :: others) (.logical .or one other) := by
  intro fuel rest enough stops
  have next : Stops Level.disjunction.extends (.keyword .or :: (others ++ rest)) :=
    Stops.cons_iff.mpr rfl
  simp only [List.length_append, List.length_cons] at enough
  -- The left operand is read up to the connective, with fuel left for all that follows.
  obtain ⟨middle, more, read⟩ := left fuel _ (by simp; omega) next
  simp only [List.length_append, List.length_cons] at more
  obtain ⟨less, rfl, bound⟩ := exists_succ_of_lt more
  refine ⟨less, by omega, ?_⟩
  rw [List.append_assoc, List.cons_append, read]
  simp only [Level.goOn, moreDisjuncts]
  rw [right.conjunction (by omega) stops]
  rfl

theorem conjunct (readable : Readable .negation used condition) :
    Readable .conjunction used condition := by
  intro fuel rest enough stops
  obtain ⟨less, rfl, enough'⟩ := exists_succ_of_lt enough
  refine ⟨less, by omega, ?_⟩
  simp only [Level.read, Level.goOn, Condition.conjunction]
  rw [readable.negation enough' stops]
  rfl

theorem and (left : Readable .conjunction used one) (right : Readable .negation others other) :
    Readable .conjunction (used ++ .keyword .and :: others) (.logical .and one other) := by
  intro fuel rest enough stops
  have next : Stops Level.conjunction.extends (.keyword .and :: (others ++ rest)) :=
    Stops.cons_iff.mpr rfl
  simp only [List.length_append, List.length_cons] at enough
  obtain ⟨middle, more, read⟩ := left fuel _ (by simp; omega) next
  simp only [List.length_append, List.length_cons] at more
  obtain ⟨less, rfl, bound⟩ := exists_succ_of_lt more
  refine ⟨less, by omega, ?_⟩
  rw [List.append_assoc, List.cons_append, read]
  simp only [Level.goOn, moreConjuncts]
  rw [right.negation (by omega) stops]
  rfl

theorem not (readable : Readable .negation used condition) :
    Readable .negation (.keyword .not :: used) (.not condition) := by
  intro fuel rest enough stops
  simp only [List.length_cons] at enough
  obtain ⟨less, rfl, enough'⟩ := exists_succ_of_lt enough
  refine ⟨less, by omega, ?_⟩
  simp only [Level.read, Level.goOn, List.cons_append, Condition.negation]
  rw [readable.negation (by omega) stops]
  rfl

theorem plain (readable : Readable .primary used condition)
    (begun : ∀ rest more, used ++ rest ≠ .keyword .not :: more) :
    Readable .negation used condition := by
  intro fuel rest enough stops
  obtain ⟨less, rfl, enough'⟩ := exists_succ_of_lt enough
  obtain ⟨left, bound, read⟩ := readable less rest enough' stops
  refine ⟨left, bound, ?_⟩
  simp only [Level.read, Level.goOn] at read ⊢
  unfold Condition.negation
  split
  · contradiction
  · rename_i same
    exact absurd same (begun _ _)
  · rename_i same _
    cases same
    exact read

theorem group (readable : Readable .disjunction used condition) :
    Readable .primary (.openParen :: (used ++ [.closeParen])) condition := by
  intro fuel rest enough stops
  have closing : Stops Level.disjunction.extends (.closeParen :: rest) := Stops.cons_iff.mpr rfl
  have ended : ∀ more, .closeParen :: rest ≠ .keyword .or :: more := by
    rintro more ⟨⟩
  simp only [List.length_cons, List.length_append, List.length_nil] at enough
  obtain ⟨less, rfl, enough'⟩ := exists_succ_of_lt enough
  obtain ⟨left, _, read⟩ := readable less _ (by simp [Level.height]; omega) closing
  refine ⟨less, by omega, ?_⟩
  simp only [Level.read, Level.goOn, moreDisjuncts_ended ended] at read
  simp [Level.read, Level.goOn, Condition.primary, read, bind, Except.bind, pure, Except.pure]

theorem simple (derived : Simple used condition) : Readable .primary used condition := by
  intro fuel rest enough stops
  obtain ⟨less, rfl, enough'⟩ := exists_succ_of_lt enough
  obtain ⟨first, others, rfl, other, _⟩ := derived.head
  refine ⟨less, by omega, ?_⟩
  simp only [Level.read, Level.goOn]
  unfold Condition.primary
  split
  · contradiction
  · rename_i same
    exact absurd (List.cons.inj same).1 other
  · exact derived.reads stops

end Readable

theorem Derives.readable {level : Level} {used : List Token} {condition : Condition}
    (derived : Derives level used condition) : Readable level used condition := by
  induction derived with
  | disjunct _ ih => exact ih.disjunct
  | or _ _ ihLeft ihRight => exact ihLeft.or ihRight
  | conjunct _ ih => exact ih.conjunct
  | and _ _ ihLeft ihRight => exact ihLeft.and ihRight
  | not _ ih => exact ih.not
  | plain derived ih => exact ih.plain derived.head
  | group _ ih => exact ih.group
  | simple derived => exact Readable.simple derived

/-- A list of tokens is read as a condition exactly if that condition is derived from it. -/
theorem ofTokens_eq_ok_iff {tokens : List Token} {condition : Condition} :
    ofTokens tokens = .ok condition ↔ Derives .disjunction tokens condition := by
  constructor
  · intro read
    obtain ⟨⟨found, rest⟩, whole, ended⟩ := bind_ok read
    have sound := sound (readingFuel tokens)
    obtain ⟨used, derived, rfl⟩ := sound.level .disjunction whole
    cases rest with
    | nil =>
        cases ended
        rwa [List.append_nil]
    | cons => cases ended
  · intro derived
    have ended : ∀ more, [] ≠ Token.keyword .or :: more := by simp
    obtain ⟨left, _, whole⟩ := derived.readable (readingFuel tokens) []
      (by simp [readingFuel, Level.height]) Stops.nil
    rw [List.append_nil] at whole
    simp only [Level.read, Level.goOn, moreDisjuncts_ended ended] at whole
    rw [ofTokens, whole]
    rfl

end Condition
end ItemStore
