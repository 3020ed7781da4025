import ItemStore.Expression.Reading
import ItemStore.Proofs.Outcomes
import Mathlib.Data.List.TakeWhile

/-!
The written form of tokens: what a token may be spelled as, and how tokens stand one after another
in a text. A text is scanned as a list of tokens exactly if it is written for that list, so it is
written for one list at most.
-/

namespace ItemStore

def Stops {α : Type} (goesOn : α → Bool) (rest : List α) : Prop :=
  ∀ first, rest.head? = some first → goesOn first = false

namespace Stops

variable {α : Type} {goesOn : α → Bool}

@[simp] theorem nil : Stops goesOn [] := by
  simp [Stops]

@[simp] theorem cons_iff {first : α} {rest : List α} :
    Stops goesOn (first :: rest) ↔ goesOn first = false := by
  simp [Stops]

theorem of_ne {rest : List α} (other : ∀ first more, rest = first :: more → goesOn first = false) :
    Stops goesOn rest := by
  cases rest with
  | nil => exact nil
  | cons first more => exact cons_iff.mpr (other first more rfl)

theorem mono {other : α → Bool} {rest : List α} (stops : Stops goesOn rest)
    (fewer : ∀ value, other value = true → goesOn value = true) : Stops other rest :=
  fun first head => Bool.eq_false_iff.mpr fun goes =>
    Bool.eq_false_iff.mp (stops first head) (fewer first goes)

theorem takeWhile_append {run rest : List α} (all : ∀ c ∈ run, goesOn c = true)
    (stops : Stops goesOn rest) : (run ++ rest).takeWhile goesOn = run := by
  rw [List.takeWhile_append_of_pos all]
  cases rest with
  | nil => simp
  | cons first rest => simp [cons_iff.mp stops]

theorem dropWhile_append {run rest : List α} (all : ∀ c ∈ run, goesOn c = true)
    (stops : Stops goesOn rest) : (run ++ rest).dropWhile goesOn = rest := by
  rw [List.dropWhile_append_of_pos all]
  cases rest with
  | nil => rfl
  | cons first rest => simp [cons_iff.mp stops]

theorem dropWhile (values : List α) : Stops goesOn (values.dropWhile goesOn) := by
  intro first head
  simpa [head] using List.head?_dropWhile_not goesOn values

end Stops

namespace Keyword

variable {word : List Char}

theorem isAlpha_text (kind : Keyword) :
    kind.text.toList ≠ [] ∧ ∀ c ∈ kind.text.toList, c.isAlpha = true := by
  rw [← List.all_eq_true]
  cases kind <;> decide

theorem ofWord?_eq_some_iff {kind : Keyword} :
    ofWord? word = some kind ↔ word.map Char.toUpper = kind.text.toList := by
  constructor
  · intro found
    unfold ofWord? at found
    have same := List.find?_some found
    exact (beq_iff_eq.mp same).symm
  · intro spelled
    rw [ofWord?, spelled]
    cases kind <;> decide

theorem ofWord?_eq_none_iff :
    ofWord? word = none ↔ ∀ kind : Keyword, word.map Char.toUpper ≠ kind.text.toList := by
  rw [← Option.not_isSome_iff_eq_none, Option.isSome_iff_exists]
  simp only [ofWord?_eq_some_iff, not_exists, ne_eq]

end Keyword

namespace Token

def IsWord (text : List Char) : Prop :=
  ∃ first rest, text = first :: rest ∧ isWordStart first = true ∧ ∀ c ∈ rest, isWordChar c = true

def IsPlaceholder (mark : Char) (text : List Char) : Prop :=
  ∃ body, text = mark :: body ∧ body ≠ [] ∧ ∀ c ∈ body, isWordChar c = true

def Spells (text : List Char) : Token → Prop
  | .word name =>
      text = name.toList ∧ IsWord text ∧ ∀ kind : Keyword, text.map Char.toUpper ≠ kind.text.toList
  | .nameRef name => text = name.toList ∧ IsPlaceholder '#' text
  | .valueRef name => text = name.toList ∧ IsPlaceholder ':' text
  | .index position =>
      text ≠ [] ∧ (∀ c ∈ text, c.isDigit = true) ∧ Nat.ofDigitChars 10 text 0 = position ∧
        position < indexLimit
  | .comparator kind => text = kind.text.toList
  | .keyword kind => text.map Char.toUpper = kind.text.toList
  | .plus => text = ['+']
  | .minus => text = ['-']
  | .dot => text = ['.']
  | .comma => text = [',']
  | .openParen => text = ['(']
  | .closeParen => text = [')']
  | .openBracket => text = ['[']
  | .closeBracket => text = [']']

def Spellable (token : Token) : Prop :=
  ∃ text, Spells text token

def takes : Token → Char → Bool
  | .word _, c | .nameRef _, c | .valueRef _, c | .keyword _, c => isWordChar c
  | .index _, c => c.isDigit
  | .comparator .less, c => c == '=' || c == '>'
  | .comparator .greater, c => c == '='
  | _, _ => false

/-- A text that is written for some tokens: each is spelled in it, in their order, with separators
around them wherever one likes, as long as no token takes the character after it. -/
inductive Written : List Token → List Char → Prop
  | done {gap : List Char} : (∀ c ∈ gap, Text.isSeparator c = true) → Written [] gap
  | token {gap text rest : List Char} {token : Token} {tokens : List Token} :
      (∀ c ∈ gap, Text.isSeparator c = true) → Spells text token → Stops (takes token) rest →
      Written tokens rest → Written (token :: tokens) (gap ++ (text ++ rest))

/-! ### The characters of tokens -/

theorem isWhiteSpace_eq_false {c : Char} (visible : 33 ≤ c.toNat ∧ c.toNat < 127) :
    Text.isWhiteSpace c = false := by
  simp only [Text.isWhiteSpace, Text.whiteSpaceRanges, List.any_cons, List.any_nil,
    Bool.or_false, Bool.or_eq_false_iff, Bool.and_eq_false_iff, decide_eq_false_iff_not]
  omega

theorem isSeparator_eq_false {c : Char} (visible : 33 ≤ c.toNat ∧ c.toNat < 127) :
    Text.isSeparator c = false := by
  rw [← Bool.not_eq_true]
  intro separator
  have blank := Text.isWhiteSpace_of_isSeparator separator
  rw [isWhiteSpace_eq_false visible] at blank
  cases blank

theorem isAlpha_iff_toNat {c : Char} : c.isAlpha = true ↔
    (65 ≤ c.toNat ∧ c.toNat ≤ 90) ∨ (97 ≤ c.toNat ∧ c.toNat ≤ 122) := by
  change (decide (c.val ≥ 'A'.val ∧ c.val ≤ 'Z'.val) ||
    (decide (c.val ≥ 'a'.val) && decide (c.val ≤ 'z'.val))) = true ↔ _
  simp only [Bool.or_eq_true, Bool.and_eq_true, decide_eq_true_eq]
  exact Iff.rfl

theorem isDigit_iff_toNat {c : Char} : c.isDigit = true ↔ 48 ≤ c.toNat ∧ c.toNat ≤ 57 :=
  Char.isDigit_iff_toNat

theorem visible_of_isWordChar {c : Char} (wordChar : isWordChar c = true) :
    33 ≤ c.toNat ∧ c.toNat < 127 := by
  simp only [isWordChar, Char.isAlphanum, Bool.or_eq_true, isAlpha_iff_toNat, isDigit_iff_toNat,
    beq_iff_eq] at wordChar
  rcases wordChar with letterOrDigit | rfl
  · omega
  · decide

theorem isWordChar_of_isWordStart {c : Char} (start : isWordStart c = true) :
    isWordChar c = true := by
  simp only [isWordStart, Bool.or_eq_true] at start
  simp only [isWordChar, Char.isAlphanum, Bool.or_eq_true]
  exact start.imp Or.inl id

theorem isWordChar_of_isDigit {c : Char} (digit : c.isDigit = true) : isWordChar c = true := by
  simp [isWordChar, Char.isAlphanum, digit]

theorem isAlpha_of_toUpper {c : Char} (upper : c.toUpper.isAlpha = true) : c.isAlpha = true := by
  unfold Char.toUpper at upper
  split at upper
  · rename_i lower
    exact isAlpha_iff_toNat.mpr (Or.inr lower)
  · exact upper

theorem isWord_of_keyword {text : List Char} {kind : Keyword}
    (spelled : text.map Char.toUpper = kind.text.toList) : IsWord text := by
  obtain ⟨begun, letters⟩ := Keyword.isAlpha_text kind
  rw [← spelled] at begun letters
  have alpha : ∀ c ∈ text, c.isAlpha = true := fun c member =>
    isAlpha_of_toUpper (letters _ (List.mem_map_of_mem member))
  cases text with
  | nil => exact absurd rfl begun
  | cons first rest =>
      refine ⟨first, rest, rfl, ?_, ?_⟩
      · simp [isWordStart, alpha first List.mem_cons_self]
      · intro c member
        exact isWordChar_of_isWordStart (by simp [isWordStart, alpha c (.tail _ member)])

/-! ### One token -/

theorem head_of_isWord {text : List Char} (word : IsWord text) :
    ∃ c rest, text = c :: rest ∧ 33 ≤ c.toNat ∧ c.toNat < 127 := by
  obtain ⟨first, rest, rfl, start, _⟩ := word
  exact ⟨first, rest, rfl, visible_of_isWordChar (isWordChar_of_isWordStart start)⟩

theorem head_of_spells {text : List Char} {token : Token} (spelled : Spells text token) :
    ∃ c rest, text = c :: rest ∧ 33 ≤ c.toNat ∧ c.toNat < 127 := by
  cases token with
  | word name => exact head_of_isWord spelled.2.1
  | keyword kind => exact head_of_isWord (isWord_of_keyword spelled)
  | nameRef name =>
      obtain ⟨body, rfl, _⟩ := spelled.2
      exact ⟨_, _, rfl, by decide⟩
  | valueRef name =>
      obtain ⟨body, rfl, _⟩ := spelled.2
      exact ⟨_, _, rfl, by decide⟩
  | index position =>
      obtain ⟨begun, digits, _⟩ := spelled
      cases text with
      | nil => exact absurd rfl begun
      | cons first rest =>
          have digit := digits first List.mem_cons_self
          exact ⟨_, _, rfl, visible_of_isWordChar (isWordChar_of_isDigit digit)⟩
  | comparator kind =>
      cases spelled
      cases kind <;> exact ⟨_, _, rfl, by decide⟩
  | plus | minus | dot | comma | openParen | closeParen | openBracket | closeBracket =>
      cases spelled
      exact ⟨_, _, rfl, by decide⟩

theorem spellable_iff {token : Token} : token.Spellable ↔ match token with
    | .word name => IsWord name.toList ∧
        ∀ kind : Keyword, name.toList.map Char.toUpper ≠ kind.text.toList
    | .nameRef name => IsPlaceholder '#' name.toList
    | .valueRef name => IsPlaceholder ':' name.toList
    | .index position => position < indexLimit
    | _ => True := by
  cases token with
  | word name | nameRef name | valueRef name => simp [Spellable, Spells]
  | index position =>
      refine ⟨fun ⟨_, spelled⟩ => spelled.2.2.2, fun small => ⟨Nat.toDigits 10 position, ?_⟩⟩
      have digits : ∀ c ∈ Nat.toDigits 10 position, c.isDigit = true := fun c member =>
        Nat.isDigit_of_mem_toDigits (by decide) (by decide) member
      exact ⟨Nat.toDigits_ne_nil, digits, Nat.ofDigitChars_ten_toDigits, small⟩
  | keyword kind =>
      have capitals : kind.text.toList.map Char.toUpper = kind.text.toList := by
        cases kind <;> decide
      exact iff_true_intro ⟨_, capitals⟩
  | comparator | plus | minus | dot | comma | openParen | closeParen | openBracket | closeBracket =>
      exact iff_true_intro ⟨_, rfl⟩

def AllSpellable (tokens : List Token) : Prop :=
  ∀ token ∈ tokens, token.Spellable

@[simp] theorem allSpellable_nil : AllSpellable [] := by
  simp [AllSpellable]

@[simp] theorem allSpellable_cons {token : Token} {tokens : List Token} :
    AllSpellable (token :: tokens) ↔ token.Spellable ∧ AllSpellable tokens :=
  List.forall_mem_cons

@[simp] theorem allSpellable_append {tokens others : List Token} :
    AllSpellable (tokens ++ others) ↔ AllSpellable tokens ∧ AllSpellable others :=
  List.forall_mem_append

@[simp] theorem allSpellable_flatMap {α : Type} {write : α → List Token} {values : List α} :
    AllSpellable (values.flatMap write) ↔ ∀ value ∈ values, AllSpellable (write value) := by
  induction values with
  | nil => simp
  | cons value rest ih => simp [ih]

theorem spells_of_punctuation? {c : Char} {token : Token} (found : punctuation? c = some token) :
    Spells [c] token ∧ ∀ next, takes token next = false := by
  unfold punctuation? at found
  split at found <;> cases found <;> exact ⟨rfl, fun _ => rfl⟩

theorem spells_ofWord {text : List Char} (word : IsWord text) :
    Spells text (ofWord text) ∧ takes (ofWord text) = isWordChar := by
  cases found : Keyword.ofWord? text with
  | some kind =>
      rw [ofWord, found]
      exact ⟨Keyword.ofWord?_eq_some_iff.mp found, rfl⟩
  | none =>
      rw [ofWord, found]
      exact ⟨⟨String.toList_ofList.symm, word, Keyword.ofWord?_eq_none_iff.mp found⟩, rfl⟩

theorem append_dropWhile (p : Char → Bool) (first : Char) (rest : List Char) :
    first :: rest = (first :: rest.takeWhile p) ++ rest.dropWhile p := by
  rw [List.cons_append, List.takeWhile_append_dropWhile]

theorem scanPlaceholder_ok {mark : Char} {rest : List Char} {token : Token}
    (scanned : scanPlaceholder mark rest = .ok token) :
    IsPlaceholder mark (mark :: rest.takeWhile isWordChar) ∧
      token = if mark == '#' then .nameRef (String.ofList (mark :: rest.takeWhile isWordChar))
        else .valueRef (String.ofList (mark :: rest.takeWhile isWordChar)) := by
  by_cases empty : rest.takeWhile isWordChar = []
  · simp [scanPlaceholder, empty] at scanned
  · simp only [scanPlaceholder, List.isEmpty_iff, empty, if_false, Except.ok.injEq] at scanned
    exact ⟨⟨_, rfl, empty, fun c member => List.mem_takeWhile_imp member⟩, scanned.symm⟩

theorem scanIndex_ok {digits : List Char} {token : Token} (scanned : scanIndex digits = .ok token) :
    token = .index (Nat.ofDigitChars 10 digits 0) ∧ Nat.ofDigitChars 10 digits 0 < indexLimit := by
  rw [scanIndex] at scanned
  split at scanned
  · rename_i small
    cases scanned
    exact ⟨rfl, small⟩
  · cases scanned

theorem scanOne_ok {c : Char} {rest left : List Char} {token : Token}
    (scanned : scanOne c rest = .ok (token, left)) :
    ∃ text, c :: rest = text ++ left ∧ Spells text token ∧ Stops (takes token) left := by
  unfold scanOne at scanned
  split at scanned
  · rename_i found
    cases scanned
    obtain ⟨spelled, alone⟩ := spells_of_punctuation? found
    exact ⟨[c], rfl, spelled, fun next _ => alone next⟩
  split at scanned
  · rename_i less
    cases beq_iff_eq.mp less
    split at scanned <;> cases scanned
    · exact ⟨['<', '='], rfl, rfl, fun _ _ => rfl⟩
    · exact ⟨['<', '>'], rfl, rfl, fun _ _ => rfl⟩
    · rename_i noEqual noGreater
      refine ⟨['<'], rfl, rfl, Stops.of_ne fun next left same => ?_⟩
      have equal : next ≠ '=' := fun equal => noEqual left (by rw [same, equal])
      have greater : next ≠ '>' := fun greater => noGreater left (by rw [same, greater])
      simp [takes, equal, greater]
  split at scanned
  · rename_i greater
    cases beq_iff_eq.mp greater
    split at scanned <;> cases scanned
    · exact ⟨['>', '='], rfl, rfl, fun _ _ => rfl⟩
    · rename_i noEqual
      refine ⟨['>'], rfl, rfl, Stops.of_ne fun next left same => ?_⟩
      have equal : next ≠ '=' := fun equal => noEqual left (by rw [same, equal])
      simp [takes, equal]
  split at scanned
  · rename_i mark
    obtain ⟨token, read, same⟩ := map_ok scanned
    cases same
    obtain ⟨placeholder, rfl⟩ := scanPlaceholder_ok read
    refine ⟨_, append_dropWhile isWordChar c rest, ?_⟩
    rcases (Bool.or_eq_true _ _).mp mark with hash | colon
    · cases beq_iff_eq.mp hash
      exact ⟨⟨String.toList_ofList.symm, placeholder⟩, Stops.dropWhile rest⟩
    · cases beq_iff_eq.mp colon
      exact ⟨⟨String.toList_ofList.symm, placeholder⟩, Stops.dropWhile rest⟩
  split at scanned
  · rename_i digit
    obtain ⟨token, read, same⟩ := map_ok scanned
    cases same
    obtain ⟨rfl, small⟩ := scanIndex_ok read
    refine ⟨_, append_dropWhile Char.isDigit c rest, ⟨List.cons_ne_nil _ _, ?_, rfl, small⟩,
      Stops.dropWhile rest⟩
    intro d member
    rcases List.mem_cons.mp member with rfl | member
    · exact digit
    · exact List.mem_takeWhile_imp member
  split at scanned
  · rename_i start
    cases scanned
    have word : IsWord (c :: rest.takeWhile isWordChar) :=
      ⟨c, _, rfl, start, fun d member => List.mem_takeWhile_imp member⟩
    obtain ⟨spelled, goesOn⟩ := spells_ofWord word
    refine ⟨_, append_dropWhile isWordChar c rest, spelled, ?_⟩
    rw [goesOn]
    exact Stops.dropWhile rest
  · cases scanned

theorem punctuation?_of_isWordChar {c : Char} (wordChar : isWordChar c = true) :
    punctuation? c = none := by
  unfold punctuation?
  split <;> first | rfl | cases wordChar

theorem ne_of_isWordChar {c : Char} (wordChar : isWordChar c = true) :
    c ≠ '<' ∧ c ≠ '>' ∧ c ≠ '#' ∧ c ≠ ':' := by
  refine ⟨?_, ?_, ?_, ?_⟩ <;> (rintro rfl; cases wordChar)

theorem isDigit_of_isWordStart {c : Char} (start : isWordStart c = true) : c.isDigit = false := by
  simp only [isWordStart, Bool.or_eq_true, isAlpha_iff_toNat, beq_iff_eq] at start
  rcases start with letter | rfl
  · rw [Bool.eq_false_iff, ne_eq, isDigit_iff_toNat]
    omega
  · rfl

theorem scanOne_word {first : Char} {body left : List Char} (start : isWordStart first = true)
    (word : ∀ c ∈ body, isWordChar c = true) (stops : Stops isWordChar left) :
    scanOne first (body ++ left) = .ok (ofWord (first :: body), left) := by
  have wordChar := isWordChar_of_isWordStart start
  obtain ⟨less, greater, hash, colon⟩ := ne_of_isWordChar wordChar
  simp [scanOne, punctuation?_of_isWordChar wordChar, less, greater, hash, colon,
    isDigit_of_isWordStart start, start, stops.takeWhile_append word, stops.dropWhile_append word]

theorem scanOne_placeholder {mark : Char} {body left : List Char} (known : mark = '#' ∨ mark = ':')
    (begun : body ≠ []) (word : ∀ c ∈ body, isWordChar c = true) (stops : Stops isWordChar left) :
    scanOne mark (body ++ left) =
      .ok (if mark == '#' then .nameRef (String.ofList (mark :: body))
        else .valueRef (String.ofList (mark :: body)), left) := by
  have read : scanPlaceholder mark (body ++ left) =
      .ok (if mark == '#' then .nameRef (String.ofList (mark :: body))
        else .valueRef (String.ofList (mark :: body))) := by
    simp [scanPlaceholder, stops.takeWhile_append word, begun]
  rcases known with rfl | rfl <;>
    simp [scanOne, punctuation?, read, stops.dropWhile_append word, Except.map]

theorem scanOne_index {first : Char} {body left : List Char} (digit : first.isDigit = true)
    (digits : ∀ c ∈ body, c.isDigit = true)
    (small : Nat.ofDigitChars 10 (first :: body) 0 < indexLimit)
    (stops : Stops Char.isDigit left) :
    scanOne first (body ++ left) =
      .ok (.index (Nat.ofDigitChars 10 (first :: body) 0), left) := by
  have wordChar := isWordChar_of_isDigit digit
  obtain ⟨less, greater, hash, colon⟩ := ne_of_isWordChar wordChar
  have read : scanIndex (first :: body) = .ok (.index (Nat.ofDigitChars 10 (first :: body) 0)) := by
    rw [scanIndex]
    exact if_pos small
  simp [scanOne, punctuation?_of_isWordChar wordChar, less, greater, hash, colon, digit,
    stops.takeWhile_append digits, stops.dropWhile_append digits, read, Except.map]

theorem scanOne_less {left : List Char} (stops : Stops (takes (.comparator .less)) left) :
    scanOne '<' left = .ok (.comparator .less, left) := by
  cases left with
  | nil => rfl
  | cons next tail =>
      have other := Stops.cons_iff.mp stops
      simp only [takes, Bool.or_eq_false_iff, beq_eq_false_iff_ne] at other
      simp [scanOne, punctuation?, other]

theorem scanOne_greater {left : List Char} (stops : Stops (takes (.comparator .greater)) left) :
    scanOne '>' left = .ok (.comparator .greater, left) := by
  cases left with
  | nil => rfl
  | cons next tail =>
      have other := Stops.cons_iff.mp stops
      simp only [takes, beq_eq_false_iff_ne] at other
      simp [scanOne, punctuation?, other]

theorem scanOne_comparator {kind : Comparator} {c : Char} {more left : List Char}
    (spelled : Spells (c :: more) (.comparator kind))
    (stops : Stops (takes (.comparator kind)) left) :
    scanOne c (more ++ left) = .ok (.comparator kind, left) := by
  cases kind with
  | less =>
      cases (show c :: more = ['<'] from spelled)
      exact scanOne_less stops
  | greater =>
      cases (show c :: more = ['>'] from spelled)
      exact scanOne_greater stops
  | equal | notEqual | lessEqual | greaterEqual =>
      cases spelled
      rfl

theorem scanOne_spelled {c : Char} {more left : List Char} {token : Token}
    (spelled : Spells (c :: more) token) (stops : Stops (takes token) left) :
    scanOne c (more ++ left) = .ok (token, left) := by
  cases token with
  | word name =>
      obtain ⟨same, ⟨first, body, shape, start, word⟩, other⟩ := spelled
      cases shape
      have known : ofWord (c :: more) = .word name := by
        rw [ofWord, Keyword.ofWord?_eq_none_iff.mpr other, same, String.ofList_toList]
      rw [scanOne_word start word stops, known]
  | keyword kind =>
      obtain ⟨first, body, shape, start, word⟩ := isWord_of_keyword spelled
      cases shape
      have known : ofWord (c :: more) = .keyword kind := by
        rw [ofWord, Keyword.ofWord?_eq_some_iff.mpr spelled]
      rw [scanOne_word start word stops, known]
  | nameRef name =>
      obtain ⟨same, body, shape, begun, word⟩ := spelled
      cases shape
      rw [scanOne_placeholder (Or.inl rfl) begun word stops, same, String.ofList_toList]
      rfl
  | valueRef name =>
      obtain ⟨same, body, shape, begun, word⟩ := spelled
      cases shape
      rw [scanOne_placeholder (Or.inr rfl) begun word stops, same, String.ofList_toList]
      rfl
  | index position =>
      obtain ⟨_, digits, rfl, small⟩ := spelled
      exact scanOne_index (digits c List.mem_cons_self)
        (fun d member => digits d (.tail _ member)) small stops
  | comparator kind => exact scanOne_comparator spelled stops
  | plus | minus | dot | comma | openParen | closeParen | openBracket | closeBracket =>
      cases spelled
      rfl

/-! ### All tokens -/

theorem written_of_scanAll : ∀ {fuel : Nat} {text : List Char} {tokens : List Token},
    scanAll fuel text = .ok tokens → Written tokens text
  | fuel, text, tokens, scanned => by
      have split := List.takeWhile_append_dropWhile (p := Text.isSeparator) (l := text)
      have gap : ∀ c ∈ text.takeWhile Text.isSeparator, Text.isSeparator c = true :=
        fun c member => List.mem_takeWhile_imp member
      unfold scanAll at scanned
      cases visible : text.dropWhile Text.isSeparator with
      | nil =>
          rw [visible] at scanned
          cases scanned
          rw [visible, List.append_nil] at split
          exact split ▸ Written.done gap
      | cons c rest =>
          rw [visible] at scanned split
          cases fuel with
          | zero => cases scanned
          | succ fuel =>
              obtain ⟨⟨token, left⟩, first, scanned⟩ := bind_ok scanned
              obtain ⟨others, later, same⟩ := bind_ok scanned
              cases same
              obtain ⟨spelling, same, spelled, stops⟩ := scanOne_ok first
              rw [← split, same]
              exact Written.token gap spelled stops (written_of_scanAll later)

theorem scanAll_of_written {text : List Char} {tokens : List Token}
    (written : Written tokens text) :
    ∀ fuel, text.length ≤ fuel → scanAll fuel text = .ok tokens := by
  induction written with
  | @done gap blank =>
      intro fuel _
      have nothing : gap.dropWhile Text.isSeparator = [] := List.dropWhile_eq_nil_iff.mpr blank
      unfold scanAll
      rw [nothing]
  | @token gap spelling rest token tokens blank spelled stops _ ih =>
      intro fuel enough
      obtain ⟨c, more, rfl, visible⟩ := head_of_spells spelled
      have first := scanOne_spelled spelled stops
      have start : (gap ++ (c :: more ++ rest)).dropWhile Text.isSeparator = c :: (more ++ rest) :=
        Stops.dropWhile_append blank (Stops.cons_iff.mpr (isSeparator_eq_false visible))
      simp only [List.length_append, List.length_cons] at enough
      cases fuel with
      | zero => omega
      | succ fuel =>
          have later := ih fuel (by omega)
          unfold scanAll
          rw [start]
          simp only [first, later, bind, Except.bind, pure, Except.pure]

/-- Scanning finds the tokens that a text is written for, if there are any. -/
theorem scan_eq_ok_iff {text : List Char} {tokens : List Token} :
    scan text = .ok tokens ↔ Written tokens text :=
  ⟨written_of_scanAll, fun written => scanAll_of_written written _ (Nat.le_refl _)⟩

theorem Written.unique {text : List Char} {tokens others : List Token}
    (written : Written tokens text) (also : Written others text) : tokens = others := by
  rw [← scan_eq_ok_iff] at written also
  rw [written] at also
  exact Except.ok.inj also

theorem Written.spellable {text : List Char} {tokens : List Token} (written : Written tokens text) :
    AllSpellable tokens := by
  induction written with
  | done _ => exact allSpellable_nil
  | token _ spelled _ _ ih => exact allSpellable_cons.mpr ⟨⟨_, spelled⟩, ih⟩

theorem Written.afterBlank {text : List Char} {tokens : List Token}
    (written : Written tokens text) :
    Written tokens (' ' :: text) := by
  cases written with
  | done blank => exact .done (List.forall_mem_cons.mpr ⟨rfl, blank⟩)
  | token blank spelled stops rest =>
      exact .token (List.forall_mem_cons.mpr ⟨rfl, blank⟩) spelled stops rest

theorem takes_blank (token : Token) : takes token ' ' = false := by
  cases token with
  | comparator kind => cases kind <;> rfl
  | _ => rfl

theorem exists_written {tokens : List Token} (spellable : AllSpellable tokens) :
    ∃ text, Written tokens text := by
  induction tokens with
  | nil => exact ⟨[], .done (by simp)⟩
  | cons token tokens ih =>
      obtain ⟨⟨spelling, spelled⟩, others⟩ := allSpellable_cons.mp spellable
      obtain ⟨text, written⟩ := ih others
      have stops : Stops (takes token) (' ' :: text) := Stops.cons_iff.mpr (takes_blank token)
      exact ⟨[] ++ (spelling ++ ' ' :: text), .token (by simp) spelled stops written.afterBlank⟩

theorem isBlank_iff {text : List Char} {tokens : List Token} (written : Written tokens text) :
    Text.isBlank text = true ↔ tokens = [] := by
  cases written with
  | done blank =>
      simp only [Text.isBlank, List.all_eq_true, iff_true]
      exact fun c member => Text.isWhiteSpace_of_isSeparator (blank c member)
  | token _ spelled _ _ =>
      obtain ⟨c, more, rfl, visible⟩ := head_of_spells spelled
      simp [Text.isBlank, isWhiteSpace_eq_false visible]

end Token

theorem Reading.tokens_eq_ok_iff {text : String} {tokens : List Token} :
    Reading.tokens text = .ok tokens ↔ Token.Written tokens text.toList ∧ tokens ≠ [] := by
  rw [Reading.tokens, ← Token.scan_eq_ok_iff]
  constructor
  · intro read
    split at read
    · cases read
    · rename_i visible
      have written := Token.scan_eq_ok_iff.mp read
      exact ⟨read, fun none => visible ((Token.isBlank_iff written).mpr none)⟩
  · rintro ⟨scanned, begun⟩
    rw [if_neg fun blank => begun ((Token.isBlank_iff (Token.scan_eq_ok_iff.mp scanned)).mp blank)]
    exact scanned

end ItemStore
