import ItemStore.Proofs.Expression.ConditionGrammar

/-!
The texts of conditions. A text is read as a condition exactly if it is written for tokens from
which the grammar derives that condition. Every condition that can be expressed is read back from
what it is printed as, which has parentheses only where precedence or grouping to the right needs
them.
-/

namespace ItemStore
namespace Condition

open Reading (commas)

/-! ### Printing -/

def level : Condition → Level
  | .logical .or _ _ => .disjunction
  | .logical .and _ _ => .conjunction
  | .not _ => .negation
  | _ => .primary

@[simp] theorem level_or (left right : Condition) :
    (logical .or left right).level = .disjunction := rfl

@[simp] theorem level_and (left right : Condition) :
    (logical .and left right).level = .conjunction := rfl

@[simp] theorem level_not (inner : Condition) : (not inner).level = .negation := rfl

def grouped (needed own : Level) (tokens : List Token) : List Token :=
  if own.height ≤ needed.height then tokens else .openParen :: (tokens ++ [.closeParen])

def tokens : Condition → List Token
  | .compare left comparator right => left.tokens ++ .comparator comparator :: right.tokens
  | .between value low high =>
      value.tokens ++ .keyword .between :: (low.tokens ++ .keyword .and :: high.tokens)
  | .among value candidates =>
      value.tokens ++ .keyword .among :: .openParen ::
        (commas Operand.tokens candidates ++ [.closeParen])
  | .logical .or left right =>
      grouped .disjunction left.level left.tokens ++
        .keyword .or :: grouped .conjunction right.level right.tokens
  | .logical .and left right =>
      grouped .conjunction left.level left.tokens ++
        .keyword .and :: grouped .negation right.level right.tokens
  | .not inner => .keyword .not :: grouped .negation inner.level inner.tokens
  | .attributeExists path => callTokens .attributeExists [.path path]
  | .attributeNotExists path => callTokens .attributeNotExists [.path path]
  | .attributeType path type => callTokens .attributeType [.path path, type]
  | .beginsWith path start => callTokens .beginsWith [.path path, start]
  | .contains path part => callTokens .contains [.path path, part]

theorem Derives.weaken {own needed : Level} {used : List Token} {condition : Condition}
    (derived : Derives own used condition) (weaker : own.height ≤ needed.height) :
    Derives needed used condition := by
  have negated : Derives .primary used condition → Derives .negation used condition := .plain
  have conjoined : Derives .negation used condition → Derives .conjunction used condition :=
    .conjunct
  have disjoined : Derives .conjunction used condition → Derives .disjunction used condition :=
    .disjunct
  cases own <;> cases needed <;> simp_all [Level.height]

theorem derives_grouped {needed : Level} {condition : Condition}
    (derived : Derives condition.level condition.tokens condition) :
    Derives needed (grouped needed condition.level condition.tokens) condition := by
  unfold grouped
  split
  · rename_i weaker
    exact derived.weaken weaker
  · have within : Derives .disjunction condition.tokens condition :=
      derived.weaken (by cases condition.level <;> decide)
    exact (Derives.group within).weaken (by cases needed <;> decide)

/-! ### What can be expressed -/

/-- Whether a text can be written for a condition: all its names and values can be spelled, and it
does not ask for membership in an empty list. -/
def Expressible : Condition → Prop
  | .compare left _ right => left.Expressible ∧ right.Expressible
  | .between value low high => value.Expressible ∧ low.Expressible ∧ high.Expressible
  | .among value candidates =>
      value.Expressible ∧ candidates ≠ [] ∧ ∀ candidate ∈ candidates, candidate.Expressible
  | .logical _ left right => left.Expressible ∧ right.Expressible
  | .not inner => inner.Expressible
  | .attributeExists path | .attributeNotExists path => path.Expressible
  | .attributeType path other | .beginsWith path other | .contains path other =>
      path.Expressible ∧ other.Expressible

theorem derives_tokens : ∀ {condition : Condition}, condition.Expressible →
    Derives condition.level condition.tokens condition
  | .compare left comparator right, _ => .simple (.compare left comparator right)
  | .between value low high, _ => .simple (.between value low high)
  | .among value _, expressible => .simple (.among value expressible.2.1)
  | .logical .or _ _, expressible =>
      .or (derives_grouped (derives_tokens expressible.1))
        (derives_grouped (derives_tokens expressible.2))
  | .logical .and _ _, expressible =>
      .and (derives_grouped (derives_tokens expressible.1))
        (derives_grouped (derives_tokens expressible.2))
  | .not inner, expressible =>
      have within : inner.Expressible := expressible
      .not (derives_grouped (derives_tokens within))
  | .attributeExists path, _ => .simple (.attributeExists path)
  | .attributeNotExists path, _ => .simple (.attributeNotExists path)
  | .attributeType path type, _ => .simple (.attributeType path type)
  | .beginsWith path start, _ => .simple (.beginsWith path start)
  | .contains path part, _ => .simple (.contains path part)

theorem spellable_name (function : TestFunction) : (Token.word function.name).Spellable := by
  have other : Keyword.ofWord? function.name.toList = none := by cases function <;> decide
  have word : Token.IsWord function.name.toList := by
    cases function <;> exact ⟨_, _, rfl, rfl, List.all_eq_true.mp rfl⟩
  exact Token.spellable_iff.mpr ⟨word, Keyword.ofWord?_eq_none_iff.mp other⟩

@[simp] theorem allSpellable_callTokens {function : TestFunction} {operands : List Operand} :
    Token.AllSpellable (callTokens function operands) ↔
      ∀ operand ∈ operands, operand.Expressible := by
  simp only [callTokens, Token.allSpellable_cons, spellable_name, true_and]
  simp [Token.spellable_iff, Operand.Expressible]

theorem Simple.expressible_iff {used : List Token} {condition : Condition}
    (derived : Simple used condition) :
    condition.Expressible ↔ Token.AllSpellable used := by
  cases derived <;>
    simp [Condition.Expressible, Operand.Expressible, Path.Expressible, Operand.tokens,
      Token.spellable_iff, *]

theorem Derives.expressible_iff {level : Level} {used : List Token} {condition : Condition}
    (derived : Derives level used condition) :
    condition.Expressible ↔ Token.AllSpellable used := by
  induction derived with
  | disjunct _ ih | conjunct _ ih | plain _ ih => exact ih
  | or _ _ left right | and _ _ left right =>
      simp [Condition.Expressible, Token.spellable_iff, left, right]
  | not _ ih => simp [Condition.Expressible, Token.spellable_iff, ih]
  | group _ ih => simp [Token.spellable_iff, ih]
  | simple derived => exact derived.expressible_iff

/-! ### The shortest tokens -/

theorem length_grouped_mono {needed other own : Level} (tokens : List Token)
    (weaker : needed.height ≤ other.height) :
    (grouped other own tokens).length ≤ (grouped needed own tokens).length := by
  unfold grouped
  split <;> split <;> simp <;> omega

theorem length_grouped_le (needed : Level) (condition : Condition) :
    (grouped needed condition.level condition.tokens).length ≤ condition.tokens.length + 2 := by
  unfold grouped
  split <;> simp

theorem grouped_self (own : Level) (tokens : List Token) : grouped own own tokens = tokens :=
  if_pos (Nat.le_refl _)

theorem Simple.tokens_eq {used : List Token} {condition : Condition}
    (derived : Simple used condition) : condition.level = .primary ∧ condition.tokens = used := by
  cases derived <;> exact ⟨rfl, rfl⟩

theorem Derives.length_le {level : Level} {used : List Token} {condition : Condition}
    (derived : Derives level used condition) :
    (grouped level condition.level condition.tokens).length ≤ used.length := by
  induction derived with
  | disjunct _ ih | conjunct _ ih | plain _ ih =>
      exact (length_grouped_mono _ (by decide)).trans ih
  | or _ _ left right | and _ _ left right =>
      simp only [level_or, level_and, grouped_self, Condition.tokens, List.length_append,
        List.length_cons]
      omega
  | not _ ih =>
      simp only [level_not, grouped_self, Condition.tokens, List.length_cons]
      omega
  | @group tokens condition _ ih =>
      have all : condition.level.height ≤ Level.disjunction.height := by
        cases condition.level <;> decide
      have more := length_grouped_le .primary condition
      rw [grouped, if_pos all] at ih
      simp only [List.length_cons, List.length_append, List.length_nil]
      omega
  | simple derived =>
      obtain ⟨own, same⟩ := derived.tokens_eq
      rw [own, grouped_self, same]

/-! ### Texts -/

theorem parse_eq_ok_iff {text : String} {condition : Condition} :
    parse text = .ok condition ↔
      ∃ tokens, Token.Written tokens text.toList ∧ Derives .disjunction tokens condition := by
  constructor
  · intro parsed
    obtain ⟨tokens, scanned, read⟩ := bind_ok parsed
    exact ⟨tokens, (Reading.tokens_eq_ok_iff.mp scanned).1, ofTokens_eq_ok_iff.mp read⟩
  · rintro ⟨tokens, written, derived⟩
    have read := ofTokens_eq_ok_iff.mpr derived
    have begun : tokens ≠ [] := by
      rintro rfl
      cases read
    rw [parse, Reading.tokens_eq_ok_iff.mpr ⟨written, begun⟩]
    exact read

theorem derives_printed {condition : Condition} (expressible : condition.Expressible) :
    Derives .disjunction condition.tokens condition :=
  (derives_tokens expressible).weaken (by cases condition.level <;> decide)

theorem exists_printed {condition : Condition} (expressible : condition.Expressible) :
    ∃ text : String, Token.Written condition.tokens text.toList := by
  have spellable := (derives_tokens expressible).expressible_iff.mp expressible
  obtain ⟨text, written⟩ := Token.exists_written spellable
  exact ⟨String.ofList text, String.toList_ofList.symm ▸ written⟩

theorem expressible_iff_parsed {condition : Condition} :
    condition.Expressible ↔ ∃ text, parse text = .ok condition := by
  constructor
  · intro expressible
    obtain ⟨text, written⟩ := exists_printed expressible
    exact ⟨text, parse_eq_ok_iff.mpr ⟨_, written, derives_printed expressible⟩⟩
  · rintro ⟨text, parsed⟩
    obtain ⟨tokens, written, derived⟩ := parse_eq_ok_iff.mp parsed
    exact derived.expressible_iff.mpr written.spellable

/-- Parsing accepts exactly what the grammar derives. The conditions that some text says are the
expressible ones; each is read back from every text that is written for what it is printed as, and
there are no fewer tokens that say it. -/
theorem parse_grammar :
    (∀ (text : String) (condition : Condition), parse text = .ok condition ↔
      ∃ tokens, Token.Written tokens text.toList ∧ Derives .disjunction tokens condition) ∧
    (∀ condition : Condition, condition.Expressible ↔ ∃ text, parse text = .ok condition) ∧
    ∀ condition : Condition, condition.Expressible →
      (∃ text : String, Token.Written condition.tokens text.toList) ∧
      (∀ text : String, Token.Written condition.tokens text.toList →
        parse text = .ok condition) ∧
      ∀ tokens, Derives .disjunction tokens condition →
        condition.tokens.length ≤ tokens.length := by
  refine ⟨fun _ _ => parse_eq_ok_iff, fun _ => expressible_iff_parsed, ?_⟩
  intro condition expressible
  refine ⟨exists_printed expressible, fun text written => ?_, fun tokens derived => ?_⟩
  · exact parse_eq_ok_iff.mpr ⟨_, written, derives_printed expressible⟩
  · have shortest := derived.length_le
    rwa [grouped, if_pos (by cases condition.level <;> decide)] at shortest

theorem parse_grammar_nested :
    let named := Condition.compare (.path ⟨.literal "a", []⟩) .equal (.value ":x")
    let small := Condition.compare (.path ⟨.literal "b", [.index 1]⟩) .less (.value ":y")
    let condition := Condition.logical .and (.not (.logical .or named small))
      (.attributeExists ⟨.placeholder "#n", []⟩)
    condition.Expressible ∧
      Token.Written condition.tokens "not(a=:x or b[01]<:y)and attribute_exists(#n)".toList ∧
      parse "not(a=:x or b[01]<:y)and attribute_exists(#n)" = .ok condition := by
  intro named small condition
  have written : Token.Written condition.tokens
      "not(a=:x or b[01]<:y)and attribute_exists(#n)".toList :=
    Token.scan_eq_ok_iff.mp (by decide +kernel)
  have either : Derives .disjunction _ (.logical .or named small) :=
    .or (.disjunct (.conjunct (.plain (.simple (.compare _ _ _)))))
      (.conjunct (.plain (.simple (.compare _ _ _))))
  have derived : Derives .disjunction condition.tokens condition :=
    .disjunct (.and (.conjunct (.not (.plain (.group either))))
      (.plain (.simple (.attributeExists _))))
  have parsed := (parse_grammar.1 _ condition).mpr ⟨_, written, derived⟩
  have expressible := (parse_grammar.2.1 condition).mpr ⟨_, parsed⟩
  exact ⟨expressible, written, (parse_grammar.2.2 condition expressible).2.1 _ written⟩

end Condition
end ItemStore
