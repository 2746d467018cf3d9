import TagLogic.Json.Basic
import TagLogic.Json.Escape

/-!
# Reading JSON

The reader goes through a text once, with the open arrays and objects as a list of
`Frame`s, innermost first: a value is `due`, or a value is `done` and the innermost frame
decides what may follow. The grammar is the strict one: no comment, no comma before a
closer, no zero before a digit, no sign but minus before a number, no control character
in a text. Nesting is not limited here.

- `length_lt_of_begin`, `length_lt_of_close` — each step takes a character, which is why
  `run` ends;
- `parse?` — the public reader: one value and white space around it.

Texts are made into values by a general reader of JSON, and this follows the grammar that
one documents. On purpose it is a machine of the same make as the reader of rules. And
what is refused in a text only where somebody looks is not refused here but found in the
value: half of a surrogate pair, and values too deep inside each other.
-/

namespace TagLogic.Json

/-! ## White space and numbers -/

/-- Space, tab, line feed or carriage return. -/
def isSpace (c : Char) : Bool := c == ' ' || c == '\t' || c == '\n' || c == '\r'

/-- The text without the white space in front. -/
def skipSpace (s : List Char) : List Char := s.dropWhile isSpace

theorem length_skipSpace_le (s : List Char) : (skipSpace s).length ≤ s.length :=
  (List.dropWhile_sublist isSpace).length_le

/-- What follows a run of digits; there has to be one. -/
def afterDigits? : List Char → Option (List Char)
  | [] => none
  | c :: rest => if c.isDigit then some (rest.dropWhile Char.isDigit) else none

/-- What follows a whole number: a zero, or digits that do not begin with one. -/
def afterWhole? : List Char → Option (List Char)
  | '0' :: rest => some rest
  | s => afterDigits? s

/-- What follows a decimal fraction, if there is one. -/
def afterFraction? : List Char → Option (List Char)
  | '.' :: rest => afterDigits? rest
  | s => some s

/-- The text without a sign in front. -/
def dropSign : List Char → List Char
  | '+' :: rest => rest
  | '-' :: rest => rest
  | s => s

/-- What follows an exponent, if there is one. -/
def afterExponent? : List Char → Option (List Char)
  | 'e' :: rest => afterDigits? (dropSign rest)
  | 'E' :: rest => afterDigits? (dropSign rest)
  | s => some s

/-- What follows a number. -/
def afterNumber? (s : List Char) : Option (List Char) :=
  let unsigned := match s with
    | '-' :: rest => rest
    | s => s
  ((afterWhole? unsigned).bind afterFraction?).bind afterExponent?

/-- A number and what follows it. -/
def number? (s : List Char) : Option (Json × List Char) :=
  (afterNumber? s).map fun rest => (.num (.ofList (s.take (s.length - rest.length))), rest)

theorem length_lt_of_afterDigits? {s rest : List Char} (h : afterDigits? s = some rest) :
    rest.length < s.length := by
  unfold afterDigits? at h
  split at h
  next => cases h
  next c rest' =>
    split at h
    next =>
      cases h
      have := (List.dropWhile_sublist Char.isDigit (l := rest')).length_le
      simp only [List.length_cons]
      omega
    next => cases h

theorem length_lt_of_afterWhole? {s rest : List Char} (h : afterWhole? s = some rest) :
    rest.length < s.length := by
  unfold afterWhole? at h
  split at h
  next => cases h; simp
  next => exact length_lt_of_afterDigits? h

theorem length_le_of_afterFraction? {s rest : List Char} (h : afterFraction? s = some rest) :
    rest.length ≤ s.length := by
  unfold afterFraction? at h
  split at h
  next =>
    have := length_lt_of_afterDigits? h
    simp only [List.length_cons]
    omega
  next => cases h; exact Nat.le_refl _

theorem length_dropSign_le (s : List Char) : (dropSign s).length ≤ s.length := by
  unfold dropSign
  split <;> simp

theorem length_le_of_afterExponent? {s rest : List Char} (h : afterExponent? s = some rest) :
    rest.length ≤ s.length := by
  unfold afterExponent? at h
  split at h
  next s =>
    have := length_lt_of_afterDigits? h
    have := length_dropSign_le s
    simp only [List.length_cons]
    omega
  next s =>
    have := length_lt_of_afterDigits? h
    have := length_dropSign_le s
    simp only [List.length_cons]
    omega
  next => cases h; exact Nat.le_refl _

theorem length_lt_of_afterNumber? {s rest : List Char} (h : afterNumber? s = some rest) :
    rest.length < s.length := by
  unfold afterNumber? at h
  simp only [Option.bind_eq_some_iff] at h
  obtain ⟨b, ⟨a, hwhole, hfraction⟩, hexponent⟩ := h
  have h1 := length_lt_of_afterWhole? hwhole
  have h2 := length_le_of_afterFraction? hfraction
  have h3 := length_le_of_afterExponent? hexponent
  split at h1
  next => simp only [List.length_cons]; omega
  next => omega

/-! ## Single steps -/

/-- An array or an object that is open: a value in it is due or just done. -/
inductive Frame where
  /-- An array, with the values read before, the latest first. -/
  | arr (before : List Json)
  /-- An object, with the fields read before, the latest first, and the name of this one. -/
  | obj (before : List (Option String × Json)) (key : Option String)

/-- Where the reader stands. -/
inductive State where
  /-- A value has to come next. -/
  | due (frames : List Frame)
  /-- A value has just been read. -/
  | done (value : Json) (frames : List Frame)

/-- The name of a field with the colon behind it, and what follows. -/
def key? (s : List Char) : Option (Option String × List Char) :=
  match skipSpace s with
  | '"' :: rest =>
    match quotedText? rest with
    | some (key, rest) =>
      match skipSpace rest with
      | ':' :: rest => some (key, rest)
      | _ => none
    | none => none
  | _ => none

/-- A value is due: opens a frame or reads a value that holds no others. -/
def begin (frames : List Frame) (s : List Char) : Option (State × List Char) :=
  match skipSpace s with
  | '[' :: rest =>
    match skipSpace rest with
    | ']' :: rest => some (.done (.arr []) frames, rest)
    | _ => some (.due (.arr [] :: frames), rest)
  | '\x7b' :: rest =>
    match skipSpace rest with
    | '\x7d' :: rest => some (.done (.obj []) frames, rest)
    | _ => (key? rest).map fun k => (.due (.obj [] k.1 :: frames), k.2)
  | '"' :: rest => (quotedText? rest).map fun t => (.done (.str t.1) frames, t.2)
  | 'n' :: 'u' :: 'l' :: 'l' :: rest => some (.done .null frames, rest)
  | 't' :: 'r' :: 'u' :: 'e' :: rest => some (.done (.bool true) frames, rest)
  | 'f' :: 'a' :: 'l' :: 's' :: 'e' :: rest => some (.done (.bool false) frames, rest)
  | s => (number? s).map fun n => (.done n.1 frames, n.2)

/-- A value is done inside a frame: closes the frame or goes on to the next value. -/
def close (value : Json) : Frame → List Frame → List Char → Option (State × List Char)
  | .arr before, frames, s =>
    match skipSpace s with
    | ',' :: rest => some (.due (.arr (value :: before) :: frames), rest)
    | ']' :: rest => some (.done (.arr (value :: before).reverse) frames, rest)
    | _ => none
  | .obj before key, frames, s =>
    match skipSpace s with
    | ',' :: rest =>
      (key? rest).map fun k => (.due (.obj ((key, value) :: before) k.1 :: frames), k.2)
    | '\x7d' :: rest => some (.done (.obj ((key, value) :: before).reverse) frames, rest)
    | _ => none

/-! ## Every step takes a character -/

theorem length_lt_of_skipSpace {s rest : List Char} {c : Char} (h : skipSpace s = c :: rest) :
    rest.length < s.length := by
  have hle := length_skipSpace_le s
  rw [h, List.length_cons] at hle
  omega

theorem length_lt_of_key? {s rest : List Char} {key : Option String}
    (h : key? s = some (key, rest)) : rest.length < s.length := by
  unfold key? at h
  split at h
  next hs =>
    have h1 := length_lt_of_skipSpace hs
    split at h
    next ht =>
      have h2 := length_lt_of_quotedText? ht
      split at h
      next hc =>
        cases h
        have h3 := length_lt_of_skipSpace hc
        omega
      next => cases h
    next => cases h
  next => cases h

/-- Beginning a value takes a character. -/
theorem length_lt_of_begin {frames : List Frame} {s s' : List Char} {state : State}
    (h : begin frames s = some (state, s')) : s'.length < s.length := by
  have hle := length_skipSpace_le s
  unfold begin at h
  split at h
  next heq =>
    have h1 := length_lt_of_skipSpace heq
    split at h
    next heq' =>
      cases h
      have h2 := length_lt_of_skipSpace heq'
      omega
    next =>
      cases h
      omega
  next heq =>
    have h1 := length_lt_of_skipSpace heq
    split at h
    next heq' =>
      cases h
      have h2 := length_lt_of_skipSpace heq'
      omega
    next =>
      obtain ⟨k, hk, hpair⟩ := Option.map_eq_some_iff.mp h
      cases hpair
      have h2 := length_lt_of_key? (hk : _ = some (k.1, k.2))
      omega
  next heq =>
    have h1 := length_lt_of_skipSpace heq
    obtain ⟨t, ht, hpair⟩ := Option.map_eq_some_iff.mp h
    cases hpair
    have h2 := length_lt_of_quotedText? (ht : _ = some (t.1, t.2))
    omega
  next heq => cases h; rw [heq] at hle; simp only [List.length_cons] at hle; omega
  next heq => cases h; rw [heq] at hle; simp only [List.length_cons] at hle; omega
  next heq => cases h; rw [heq] at hle; simp only [List.length_cons] at hle; omega
  next =>
    obtain ⟨n, hn, hpair⟩ := Option.map_eq_some_iff.mp h
    cases hpair
    obtain ⟨rest, hrest, hpair⟩ := Option.map_eq_some_iff.mp hn
    cases hpair
    exact Nat.lt_of_lt_of_le (length_lt_of_afterNumber? hrest) hle

/-- Closing a frame or going on in it takes a character. -/
theorem length_lt_of_close {value : Json} {frame : Frame} {frames : List Frame}
    {s s' : List Char} {state : State} (h : close value frame frames s = some (state, s')) :
    s'.length < s.length := by
  cases frame with
  | arr before =>
    simp only [close] at h
    split at h
    next heq => cases h; exact length_lt_of_skipSpace heq
    next heq => cases h; exact length_lt_of_skipSpace heq
    next => cases h
  | obj before key =>
    simp only [close] at h
    split at h
    next heq =>
      have h1 := length_lt_of_skipSpace heq
      obtain ⟨k, hk, hpair⟩ := Option.map_eq_some_iff.mp h
      cases hpair
      have h2 := length_lt_of_key? (hk : _ = some (k.1, k.2))
      omega
    next heq => cases h; exact length_lt_of_skipSpace heq
    next => cases h

/-! ## The whole run -/

/-- Reads on from a state to the end of the text. -/
def run : State → List Char → Option Json
  | .done value [], s => if skipSpace s = [] then some value else none
  | .done value (frame :: frames), s =>
    match _h : close value frame frames s with
    | some (state, s') => run state s'
    | none => none
  | .due frames, s =>
    match _h : begin frames s with
    | some (state, s') => run state s'
    | none => none
termination_by _ s => s.length
decreasing_by
  · exact length_lt_of_close _h
  · exact length_lt_of_begin _h

/-- Reads a JSON text. -/
def parse? (text : String) : Option Json := run (.due []) text.toList

end TagLogic.Json
