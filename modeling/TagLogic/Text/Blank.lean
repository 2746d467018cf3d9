/-!
# White space and stripping

Two classes of blank characters meet in this library. Lines, names, patterns and
choices are trimmed by the Unicode property White_Space, tabulated here; the rule
grammar knows only space and tab. Both trim with the one function `strip`, which is
parametric over the class.

The table has the 25 characters that have had the property since Unicode 6.3.

The operations that read names, tags, patterns and choices (`from_str`, `segments`)
strip them by `trim`, and the production `text` strips its run by `strip isBlank`. On
purpose a text is a list of characters in all modules and no sequence of bytes, so a
place in it is a number of characters and no cut falls inside of one.
-/

namespace TagLogic.Text

/-! ## The Unicode property White_Space -/

/-- The number of the character is in one of the ranges, ends included. -/
def inRanges (ranges : List (Nat × Nat)) (c : Char) : Bool :=
  ranges.any fun r => r.1 ≤ c.toNat && c.toNat ≤ r.2

/-- The ranges of the characters with the property White_Space. -/
def whiteRanges : List (Nat × Nat) :=
  [(0x09, 0x0D), (0x20, 0x20), (0x85, 0x85), (0xA0, 0xA0), (0x1680, 0x1680),
   (0x2000, 0x200A), (0x2028, 0x2029), (0x202F, 0x202F), (0x205F, 0x205F), (0x3000, 0x3000)]

/-- The character has the property White_Space. -/
def isWhite (c : Char) : Bool := inRanges whiteRanges c

/-! ## Stripping both ends -/

/-- The text without the characters of the class at either end. -/
def strip (p : Char → Bool) (s : List Char) : List Char :=
  ((s.dropWhile p).reverse.dropWhile p).reverse

/-- The text without white space at either end. -/
def trim (s : List Char) : List Char := strip isWhite s

end TagLogic.Text
