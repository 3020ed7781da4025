/-!
White space in two senses: the characters that separate the tokens of an expression, and the
Unicode property White_Space, which decides whether a whole text is blank.
-/

namespace ItemStore.Text

def isSeparator (c : Char) : Bool :=
  c == ' ' || c == '\t' || c == '\n' || c == '\x0c' || c == '\x0d'

/-- The code points of the property White_Space, as inclusive ranges. -/
def whiteSpaceRanges : List (Nat × Nat) :=
  [(0x09, 0x0D), (0x20, 0x20), (0x85, 0x85), (0xA0, 0xA0), (0x1680, 0x1680), (0x2000, 0x200A),
    (0x2028, 0x2029), (0x202F, 0x202F), (0x205F, 0x205F), (0x3000, 0x3000)]

def isWhiteSpace (c : Char) : Bool :=
  whiteSpaceRanges.any fun range => range.1 ≤ c.toNat && c.toNat ≤ range.2

def isBlank (text : List Char) : Bool :=
  text.all isWhiteSpace

theorem isWhiteSpace_of_isSeparator {c : Char} (separator : isSeparator c = true) :
    isWhiteSpace c = true := by
  simp only [isSeparator, Bool.or_eq_true, beq_iff_eq] at separator
  rcases separator with (((rfl | rfl) | rfl) | rfl) | rfl <;> decide

end ItemStore.Text
