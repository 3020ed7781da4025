import ItemStore.Expression.Condition.Parse
import ItemStore.Proofs.Expression.Lexemes

/-!
The parts that all kinds of expressions share, as they are written in tokens, and their readers:
each reads exactly what is written for it from the front of a list of tokens, unless the next token
goes on with it.
-/

namespace ItemStore

/-! ### Paths and operands in tokens -/

def NameRef.token : NameRef → Token
  | .literal name => .word name
  | .placeholder text => .nameRef text

def PathStep.tokens : PathStep → List Token
  | .field name => [.dot, name.token]
  | .index position => [.openBracket, .index position, .closeBracket]

def Path.tokens (path : Path) : List Token :=
  path.root.token :: path.steps.flatMap PathStep.tokens

def Operand.tokens : Operand → List Token
  | .path target => target.tokens
  | .value placeholder => [.valueRef placeholder]
  | .size target => .word "size" :: .openParen :: (target.tokens ++ [.closeParen])

def Path.Expressible (path : Path) : Prop :=
  Token.AllSpellable path.tokens

def Operand.Expressible (operand : Operand) : Prop :=
  Token.AllSpellable operand.tokens

namespace Reading

variable {α : Type}

def commas (write : α → List Token) : List α → List Token
  | [] => []
  | value :: rest => write value ++ rest.flatMap fun next => .comma :: write next

@[simp] theorem allSpellable_commas {write : α → List Token} {values : List α} :
    Token.AllSpellable (commas write values) ↔
      ∀ value ∈ values, Token.AllSpellable (write value) := by
  have comma : Token.comma.Spellable := Token.spellable_iff.mpr trivial
  cases values with
  | nil => simp [commas]
  | cons value rest => simp [commas, comma]

def extendsPath : Token → Bool
  | .dot | .openBracket | .openParen => true
  | _ => false

/-- A reader of what `write` writes. It reads nothing else, and it reads that before any token that
does not go on with it. -/
structure Reads (goesOn : Token → Bool) (write : α → List Token)
    (read : List Token → Except ExpressionError (Reading α)) : Prop where
  written : ∀ {tokens rest : List Token} {value : α}, read tokens = .ok (value, rest) →
    tokens = write value ++ rest
  reads : ∀ (value : α) {rest : List Token}, Stops goesOn rest →
    read (write value ++ rest) = .ok (value, rest)

theorem skip_ok {token : Token} {tokens rest : List Token}
    (skipped : skip token tokens = .ok rest) : tokens = token :: rest := by
  cases tokens with
  | nil => cases skipped
  | cons first others =>
      rw [skip] at skipped
      split at skipped
      · rename_i same
        cases skipped
        rw [same]
      · cases skipped

@[simp] theorem skip_self (token : Token) (rest : List Token) :
    skip token (token :: rest) = .ok rest := by
  simp [skip]

/-! ### Paths -/

theorem pathSteps_written {tokens : List Token} : ∀ {rest : List Token} {steps : List PathStep},
    pathSteps tokens = .ok (steps, rest) → tokens = steps.flatMap PathStep.tokens ++ rest := by
  fun_induction pathSteps tokens with
  | case1 _ rest ih | case2 _ rest ih | case4 _ rest ih =>
      intro left steps read
      obtain ⟨⟨others, middle⟩, later, same⟩ := bind_ok read
      cases same
      rw [ih later]
      rfl
  | case3 | case5 | case6 =>
      intro left steps read
      cases read
  | case7 =>
      intro left steps read
      cases read
      rfl

theorem pathSteps_reads {rest : List Token} (stops : Stops extendsPath rest) :
    ∀ steps : List PathStep,
      pathSteps (steps.flatMap PathStep.tokens ++ rest) = .ok (steps, rest)
  | [] => by
      cases rest with
      | nil => rfl
      | cons first rest =>
          have plain := Stops.cons_iff.mp stops
          cases first <;> first | rfl | cases plain
  | .field (.literal name) :: steps => by
      have later := pathSteps_reads stops steps
      simp [PathStep.tokens, NameRef.token, pathSteps, later, bind, Except.bind, pure, Except.pure]
  | .field (.placeholder text) :: steps => by
      have later := pathSteps_reads stops steps
      simp [PathStep.tokens, NameRef.token, pathSteps, later, bind, Except.bind, pure, Except.pure]
  | .index position :: steps => by
      have later := pathSteps_reads stops steps
      simp [PathStep.tokens, pathSteps, later, bind, Except.bind, pure, Except.pure]

theorem path_reads : Reads extendsPath Path.tokens Reading.path where
  written {tokens rest path} read := by
    unfold Reading.path at read
    split at read
    case h_3 => cases read
    all_goals
      obtain ⟨⟨steps, middle⟩, later, same⟩ := bind_ok read
      cases same
      rw [pathSteps_written later]
      rfl
  reads path rest stops := by
    obtain ⟨root, steps⟩ := path
    have later := pathSteps_reads stops steps
    cases root <;>
      simp [Path.tokens, NameRef.token, Reading.path, later, bind, Except.bind, pure, Except.pure]

theorem path_ne_call (path : Path) {rest : List Token} (stops : Stops extendsPath rest)
    (name : String) (more : List Token) :
    path.tokens ++ rest ≠ .word name :: .openParen :: more := by
  intro same
  have next := (List.cons.inj same).2
  cases steps : path.steps with
  | nil =>
      rw [steps] at next
      rw [show rest = .openParen :: more from next] at stops
      cases Stops.cons_iff.mp stops
  | cons step _ =>
      rw [steps] at next
      cases step <;> cases (List.cons.inj next).1

/-! ### Lists -/

def orComma (goesOn : Token → Bool) (token : Token) : Bool :=
  goesOn token || token == .comma

section Separated

variable {goesOn : Token → Bool} {write : α → List Token}
  {element : List Token → Except ExpressionError (Reading α)}

theorem length_le_flatMap {write : α → List Token} (begun : ∀ value, write value ≠ [])
    (values : List α) : values.length ≤ (values.flatMap write).length := by
  induction values with
  | nil => exact Nat.zero_le _
  | cons value rest ih =>
      have some := List.length_pos_iff.mpr (begun value)
      simp only [List.flatMap_cons, List.length_append, List.length_cons]
      omega

theorem length_le_commas (write : α → List Token) (values : List α) :
    values.length ≤ (commas write values).length + 1 := by
  cases values with
  | nil => exact Nat.zero_le _
  | cons value rest =>
      have others : rest.length ≤ (rest.flatMap fun next => Token.comma :: write next).length :=
        length_le_flatMap (fun _ => List.cons_ne_nil _ _) rest
      simp only [commas, List.length_cons, List.length_append]
      omega

theorem afterCommas_written (reader : Reads goesOn write element) {fuel : Nat}
    {tokens : List Token} : ∀ {rest : List Token} {values : List α},
      afterCommas element fuel tokens = .ok (values, rest) →
        tokens = (values.flatMap fun next => .comma :: write next) ++ rest := by
  fun_induction afterCommas element fuel tokens with
  | case1 =>
      intro rest values read
      cases read
  | case2 fuel tokens ih =>
      intro rest values read
      obtain ⟨⟨next, middle⟩, one, read⟩ := bind_ok read
      obtain ⟨⟨others, last⟩, later, same⟩ := bind_ok read
      cases same
      rw [reader.written one, ih _ later]
      simp
  | case3 =>
      intro rest values read
      cases read
      rfl

theorem stops_of_orComma {rest : List Token} (stops : Stops (orComma goesOn) rest) :
    Stops goesOn rest :=
  fun first head => (Bool.or_eq_false_iff.mp (stops first head)).1

theorem stops_flatMap (write : α → List Token) (comma : goesOn .comma = false) {rest : List Token}
    (stops : Stops (orComma goesOn) rest) (values : List α) :
    Stops goesOn ((values.flatMap fun next => .comma :: write next) ++ rest) := by
  cases values with
  | nil => exact stops_of_orComma stops
  | cons value others => exact Stops.cons_iff.mpr comma

theorem afterCommas_reads (reader : Reads goesOn write element) (comma : goesOn .comma = false)
    {rest : List Token} (stops : Stops (orComma goesOn) rest) :
    ∀ (values : List α) (fuel : Nat), values.length ≤ fuel →
      afterCommas element fuel ((values.flatMap fun next => .comma :: write next) ++ rest) =
        .ok (values, rest)
  | [], fuel, _ => by
      have ended : ∀ more, rest ≠ .comma :: more := by
        rintro more rfl
        simp [orComma] at stops
      rw [List.flatMap_nil, List.nil_append]
      unfold afterCommas
      split
      · exact absurd rfl (ended _)
      · exact absurd rfl (ended _)
      · rfl
  | value :: others, 0, enough => by simp at enough
  | value :: others, fuel + 1, enough => by
      have one := reader.reads value (stops_flatMap write comma stops others)
      have later := afterCommas_reads reader comma stops others fuel (Nat.le_of_succ_le_succ enough)
      simp [afterCommas, one, later, bind, Except.bind, pure, Except.pure]

theorem separated_written (reader : Reads goesOn write element) {fuel : Nat}
    {tokens rest : List Token} {values : List α}
    (read : separated element fuel tokens = .ok (values, rest)) :
    values ≠ [] ∧ tokens = commas write values ++ rest := by
  obtain ⟨⟨first, middle⟩, one, read⟩ := bind_ok read
  obtain ⟨⟨others, last⟩, later, same⟩ := bind_ok read
  cases same
  rw [reader.written one, afterCommas_written reader later]
  simp [commas]

theorem separated_reads (reader : Reads goesOn write element) (comma : goesOn .comma = false)
    {rest : List Token} (stops : Stops (orComma goesOn) rest) {values : List α}
    (begun : values ≠ []) {fuel : Nat} (enough : values.length ≤ fuel + 1) :
    separated element fuel (commas write values ++ rest) = .ok (values, rest) := by
  cases values with
  | nil => exact absurd rfl begun
  | cons value others =>
      have one := reader.reads value (stops_flatMap write comma stops others)
      have later := afterCommas_reads reader comma stops others fuel (Nat.le_of_succ_le_succ enough)
      simp [separated, commas, one, later, bind, Except.bind, pure, Except.pure]

theorem separated_reads_all (reader : Reads goesOn write element) (comma : goesOn .comma = false)
    {rest : List Token} (stops : Stops (orComma goesOn) rest) {values : List α}
    (begun : values ≠ []) :
    separated element (commas write values ++ rest).length (commas write values ++ rest) =
      .ok (values, rest) := by
  have bound := length_le_commas write values
  refine separated_reads reader comma stops begun ?_
  rw [List.length_append]
  omega

end Separated

/-! ### Operands -/

theorem operand_path (path : Path) {rest : List Token} (stops : Stops extendsPath rest) :
    Condition.operand (path.tokens ++ rest) = .ok (.path path, rest) := by
  have read := path_reads.reads path stops
  unfold Condition.operand
  split
  · rename_i call
    exact absurd call (path_ne_call path stops _ _)
  · rename_i value
    cases named : path.root <;> simp [Path.tokens, NameRef.token, named] at value
  · simp [read, bind, Except.bind, pure, Except.pure]

theorem operand_reads : Reads extendsPath Operand.tokens Condition.operand where
  written {tokens rest operand} read := by
    unfold Condition.operand at read
    split at read
    · split at read
      · rename_i size
        obtain ⟨⟨target, middle⟩, path, read⟩ := bind_ok read
        dsimp only at read
        split at read
        · cases read
        · obtain ⟨left, closed, same⟩ := bind_ok read
          cases same
          rw [path_reads.written path, skip_ok closed, beq_iff_eq.mp size]
          simp [Operand.tokens]
      · cases read
    · cases read
      rfl
    · obtain ⟨⟨target, middle⟩, path, same⟩ := bind_ok read
      cases same
      exact path_reads.written path
  reads operand rest stops := by
    cases operand with
    | path target => exact operand_path target stops
    | value placeholder => rfl
    | size target =>
        have stops : Stops extendsPath (.closeParen :: rest) := Stops.cons_iff.mpr rfl
        have read := path_reads.reads target stops
        simp [Operand.tokens, Condition.operand, read, bind, Except.bind, pure, Except.pure]

theorem operands_written {tokens rest : List Token} {operands : List Operand}
    (read : Condition.operands tokens = .ok (operands, rest)) :
    operands ≠ [] ∧ tokens = commas Operand.tokens operands ++ .closeParen :: rest := by
  obtain ⟨⟨values, middle⟩, listed, read⟩ := bind_ok read
  obtain ⟨left, closed, same⟩ := bind_ok read
  cases same
  obtain ⟨begun, same⟩ := separated_written operand_reads listed
  exact ⟨begun, by rw [same, skip_ok closed]⟩

theorem operands_reads {operands : List Operand} (begun : operands ≠ []) (rest : List Token) :
    Condition.operands (commas Operand.tokens operands ++ .closeParen :: rest) =
      .ok (operands, rest) := by
  have stops : Stops (orComma extendsPath) (.closeParen :: rest) := Stops.cons_iff.mpr rfl
  have listed := separated_reads_all operand_reads rfl stops begun
  simp only [Condition.operands, listed, bind, Except.bind, skip_self, pure, Except.pure]

end Reading
end ItemStore
