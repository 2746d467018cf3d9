/-!
# Texts inside JSON

Between its quotes a text stands for code points: a character for itself, an escape for
the code point it names. The escapes `\u` name code points by four hexadecimal digits
and can name the two halves of a surrogate pair; a low half right behind a high one
makes one character with it, and any other half makes none (`ofPoints?`).

This follows the rules of JSON itself and no operation of the library; see
`Json.parse?`.
-/

namespace TagLogic.Json

/-! ## Code points -/

/-- The first half of a surrogate pair. -/
def isHigh (n : Nat) : Bool := 0xD800 ≤ n && n < 0xDC00

/-- The second half of a surrogate pair. -/
def isLow (n : Nat) : Bool := 0xDC00 ≤ n && n < 0xE000

/-- The character of a surrogate pair. -/
def ofPair (high low : Nat) : Char :=
  .ofNat (0x10000 + (high - 0xD800) * 0x400 + (low - 0xDC00))

/-- The text of code points, the last of them first, in front of a text; `none` with half a pair. -/
def ofPoints? (after : List Char) : List Nat → Option (List Char)
  | [] => some after
  | [n] => if isHigh n || isLow n then none else some (.ofNat n :: after)
  | n :: m :: before =>
    if isLow n && isHigh m then ofPoints? (ofPair m n :: after) before
    else if isHigh n || isLow n then none
    else ofPoints? (.ofNat n :: after) (m :: before)

/-! ## Escapes -/

/-- The value of a hexadecimal digit. -/
def hexDigit? (c : Char) : Option Nat :=
  if '0' ≤ c ∧ c ≤ '9' then some (c.toNat - '0'.toNat)
  else if 'a' ≤ c ∧ c ≤ 'f' then some (c.toNat - 'a'.toNat + 10)
  else if 'A' ≤ c ∧ c ≤ 'F' then some (c.toNat - 'A'.toNat + 10)
  else none

/-- The number of four hexadecimal digits. -/
def hexNumber? (a b c d : Char) : Option Nat :=
  match hexDigit? a, hexDigit? b, hexDigit? c, hexDigit? d with
  | some a, some b, some c, some d => some (((a * 16 + b) * 16 + c) * 16 + d)
  | _, _, _, _ => none

/-- The code point of an escape that is one character long. -/
def escape? : Char → Option Nat
  | '"' => some 0x22
  | '\\' => some 0x5C
  | '/' => some 0x2F
  | 'b' => some 0x08
  | 'f' => some 0x0C
  | 'n' => some 0x0A
  | 'r' => some 0x0D
  | 't' => some 0x09
  | _ => none

/-- The code points up to the closing quote, the last first, before which some have been read. -/
def points? (before : List Nat) : List Char → Option (List Nat × List Char)
  | [] => none
  | '"' :: rest => some (before, rest)
  | '\\' :: 'u' :: a :: b :: c :: d :: rest =>
    match hexNumber? a b c d with
    | some n => points? (n :: before) rest
    | none => none
  -- An escape `\u` with fewer than four characters behind it ends up here and is none.
  | '\\' :: c :: rest =>
    match escape? c with
    | some n => points? (n :: before) rest
    | none => none
  | c :: rest => if c.toNat < 0x20 then none else points? (c.toNat :: before) rest

/-- The text up to the closing quote, and what follows the quote. -/
def quotedText? (s : List Char) : Option (Option String × List Char) :=
  (points? [] s).map fun p => ((ofPoints? [] p.1).map .ofList, p.2)

/-- The closing quote is taken. -/
theorem length_lt_of_points? {before points : List Nat} {s rest : List Char}
    (h : points? before s = some (points, rest)) : rest.length < s.length := by
  fun_induction points? before s with
  | case1 => cases h
  | case2 before rest' => cases h; simp
  | case3 before a b c d rest' n hn ih => simp only [List.length_cons]; have := ih h; omega
  | case4 => cases h
  | case5 before c rest' hne n hn ih => simp only [List.length_cons]; have := ih h; omega
  | case6 => cases h
  | case7 => cases h
  | case8 before c rest' hq hu hc hlt ih => simp only [List.length_cons]; have := ih h; omega

theorem length_lt_of_quotedText? {s rest : List Char} {text : Option String}
    (h : quotedText? s = some (text, rest)) : rest.length < s.length := by
  simp only [quotedText?, Option.map_eq_some_iff, Prod.mk.injEq] at h
  obtain ⟨p, hp, -, rfl⟩ := h
  exact length_lt_of_points? hp

end TagLogic.Json
