import TagLogic.Rule.Basic

/-!
# The marks of a written rule

Seven characters are reserved; every other character is text and may stand in a name or
a tag. Between marks and text, spaces and tabs may stand freely. No blank is reserved
(`isBlank_not_isReserved`), so a run of text is bounded by reserved characters alone.

The grammar has the classes `is_reserved`, `is_blank` and `is_closer` and the production
`ws` for them, which is `skipBlanks` here; `open` and `close` of a group are `opener`
and `closer`.
-/

namespace TagLogic

/-- The characters that never belong to a name or a tag. -/
def reserved : List Char := [',', '[', ']', '(', ')', '!', '@']

def isReserved (c : Char) : Bool := reserved.contains c

def isBlank (c : Char) : Bool := c == ' ' || c == '\t'

/-- The character ends a group of one kind or the other. -/
def isCloser (c : Char) : Bool := c == ')' || c == ']'

/-- No blank is reserved. -/
theorem isBlank_not_isReserved {c : Char} (h : isBlank c = true) : isReserved c = false := by
  simp only [isBlank, Bool.or_eq_true, beq_iff_eq] at h
  rcases h with rfl | rfl <;> decide

/-- The text without the blanks in front. -/
def skipBlanks (s : List Char) : List Char := s.dropWhile isBlank

theorem length_skipBlanks_le (s : List Char) : (skipBlanks s).length ≤ s.length :=
  (List.dropWhile_sublist isBlank).length_le

namespace Group

/-- The character that opens a group of the kind. -/
def opener : Group → Char
  | .all => '('
  | .any => '['

/-- The character that ends a group of the kind. -/
def closer : Group → Char
  | .all => ')'
  | .any => ']'

/-- The closers are those of the two kinds. -/
theorem isCloser_iff {c : Char} : isCloser c = true ↔ ∃ g : Group, c = g.closer := by
  constructor
  · intro h
    simp only [isCloser, Bool.or_eq_true, beq_iff_eq] at h
    rcases h with rfl | rfl
    · exact ⟨.all, rfl⟩
    · exact ⟨.any, rfl⟩
  · rintro ⟨g, rfl⟩
    cases g <;> rfl

end Group

end TagLogic
