import TagLogic.Text.Blank
import TagLogic.Text.Pieces

/-!
# The segments of a sentence pattern

A pattern is text with slots and choices in it. A slot is written `%s`; a choice is
written in square brackets, its pieces with commas between them. Brackets come side by
side and never inside each other, so a pattern either has one list of segments or its
brackets are unbalanced (`segments?`). White space around a piece does not count.

- `segments?_flat`, `segments?_pair` — what is read where brackets are balanced;
- `segments?_closed`, `segments?_open`, `segments?_nested` — the three ways to fail.

The operation `segments` is `segments?` here, with `ofFlat` for its helper `push_text`
and `ofInside` for what it does inside of the brackets. On purpose it only says that it
fails; the error that quotes the pattern is made in `Fact.ofPattern`. And it calls
itself where `segments` loops.
-/

namespace TagLogic

/-- A part of a sentence pattern. -/
inductive Segment where
  /-- Text that stays as it is. -/
  | text (text : String)
  /-- The place of a name. -/
  | slot
  /-- The pieces of which one is chosen; there is always a first. -/
  | choice (first : String) (others : List String)
  deriving DecidableEq, Repr

namespace Segment

/-- The two characters of a slot. -/
def mark : List Char := ['%', 's']

/-- The text between the slots it holds. -/
def aroundSlots (s : List Char) : List (List Char) := Text.piecesAround '%' 's' s

/-- The text holds a slot. -/
def hasMark (s : List Char) : Bool := 1 < (aroundSlots s).length

/-- The character opens or closes a choice. -/
def isBracket (c : Char) : Bool := c == '[' || c == ']'

/-! ## Reading -/

/-- Text as a segment, unless there is none. -/
def ofText (s : List Char) : List Segment :=
  if s = [] then [] else [.text (.ofList s)]

/-- The segments of text without brackets. -/
def ofFlat (s : List Char) : List Segment :=
  (((aroundSlots s).map ofText).intersperse [.slot]).flatten

/-- The choice between the pieces of the text inside a pair of brackets. -/
def ofInside (s : List Char) : Segment :=
  match (s.splitOn ',').map fun piece => String.ofList (Text.trim piece) with
  | [] => .choice "" []
  | first :: others => .choice first others

/-- The segments of a pattern, if its brackets are balanced. -/
def segments? (s : List Char) : Option (List Segment) :=
  let before := ofFlat (s.takeWhile (!isBracket ·))
  match _h : s.dropWhile (!isBracket ·) with
  | [] => some before
  | ']' :: _ => none
  -- What is left begins with a bracket, so here with an opening one.
  | _ :: opened =>
    match _h' : opened.dropWhile (!isBracket ·) with
    | ']' :: after =>
      (segments? after).map fun rest =>
        before ++ ofInside (opened.takeWhile (!isBracket ·)) :: rest
    | _ => none
termination_by s.length
decreasing_by
  have h := congrArg List.length _h
  have h' := congrArg List.length _h'
  have hle := (List.dropWhile_sublist (!isBracket ·) (l := s)).length_le
  have hle' := (List.dropWhile_sublist (!isBracket ·) (l := opened)).length_le
  simp only [List.length_cons] at h h'
  omega

/-- Text without brackets is read over, whatever stands behind it. -/
theorem takeWhile_append_flat {s : List Char} (h : ∀ c ∈ s, isBracket c = false) (t : List Char) :
    (s ++ t).takeWhile (!isBracket ·) = s ++ t.takeWhile (!isBracket ·) ∧
      (s ++ t).dropWhile (!isBracket ·) = t.dropWhile (!isBracket ·) := by
  have hs : ∀ c ∈ s, (!isBracket c) = true := fun c hc => by simp [h c hc]
  exact ⟨List.takeWhile_append_of_pos hs, List.dropWhile_append_of_pos hs⟩

theorem takeWhile_flat {s : List Char} (h : ∀ c ∈ s, isBracket c = false) (c : Char)
    (hc : isBracket c = true) (t : List Char) :
    (s ++ c :: t).takeWhile (!isBracket ·) = s ∧
      (s ++ c :: t).dropWhile (!isBracket ·) = c :: t := by
  simpa [hc] using takeWhile_append_flat h (c :: t)

theorem takeWhile_flat_end {s : List Char} (h : ∀ c ∈ s, isBracket c = false) :
    s.takeWhile (!isBracket ·) = s ∧ s.dropWhile (!isBracket ·) = [] := by
  simpa using takeWhile_append_flat h []

/-- Without brackets the text is all there is. -/
theorem segments?_flat {s : List Char} (h : ∀ c ∈ s, isBracket c = false) :
    segments? s = some (ofFlat s) := by
  obtain ⟨htake, hdrop⟩ := takeWhile_flat_end h
  rw [segments?, htake]
  split
  next => rfl
  next heq => rw [hdrop] at heq; cases heq
  next heq => rw [hdrop] at heq; cases heq

/-- A pair of brackets with none inside is a choice. -/
theorem segments?_pair {before inside : List Char} (h : ∀ c ∈ before, isBracket c = false)
    (h' : ∀ c ∈ inside, isBracket c = false) (after : List Char) :
    segments? (before ++ '[' :: (inside ++ ']' :: after)) =
      (segments? after).map fun rest => ofFlat before ++ ofInside inside :: rest := by
  obtain ⟨htake, hdrop⟩ := takeWhile_flat h '[' rfl (inside ++ ']' :: after)
  obtain ⟨htake', hdrop'⟩ := takeWhile_flat h' ']' rfl after
  rw [segments?, htake]
  split
  next heq => rw [hdrop] at heq; cases heq
  next heq => rw [hdrop] at heq; cases heq
  next opened _ heq =>
    rw [hdrop] at heq
    cases heq
    split
    next after' heq' => rw [hdrop'] at heq'; cases heq'; rw [htake']
    next hne => exact absurd hdrop' (hne after)

/-- Nothing is closed before it is opened. -/
theorem segments?_closed {before : List Char} (h : ∀ c ∈ before, isBracket c = false)
    (after : List Char) : segments? (before ++ ']' :: after) = none := by
  obtain ⟨-, hdrop⟩ := takeWhile_flat h ']' rfl after
  rw [segments?]
  split
  next heq => rw [hdrop] at heq; cases heq
  next => rfl
  next hne heq => rw [hdrop] at heq; cases heq; exact (hne rfl).elim

/-- What is opened is closed. -/
theorem segments?_open {before inside : List Char} (h : ∀ c ∈ before, isBracket c = false)
    (h' : ∀ c ∈ inside, isBracket c = false) :
    segments? (before ++ '[' :: inside) = none := by
  obtain ⟨-, hdrop⟩ := takeWhile_flat h '[' rfl inside
  obtain ⟨-, hdrop'⟩ := takeWhile_flat_end h'
  rw [segments?]
  split
  next heq => rw [hdrop] at heq; cases heq
  next => rfl
  next opened _ heq =>
    rw [hdrop] at heq
    cases heq
    split
    next heq' => rw [hdrop'] at heq'; cases heq'
    next => rfl

/-- Nothing is opened inside of what is open. -/
theorem segments?_nested {before inside : List Char} (h : ∀ c ∈ before, isBracket c = false)
    (h' : ∀ c ∈ inside, isBracket c = false) (after : List Char) :
    segments? (before ++ '[' :: (inside ++ '[' :: after)) = none := by
  obtain ⟨-, hdrop⟩ := takeWhile_flat h '[' rfl (inside ++ '[' :: after)
  obtain ⟨-, hdrop'⟩ := takeWhile_flat h' '[' rfl after
  rw [segments?]
  split
  next heq => rw [hdrop] at heq; cases heq
  next => rfl
  next opened _ heq =>
    rw [hdrop] at heq
    cases heq
    split
    next heq' => rw [hdrop'] at heq'; cases heq'
    next => rfl

/-! ## Writing -/

/-- The pieces of a choice. -/
def pieces : Segment → List String
  | .choice first others => first :: others
  | _ => []

/-- A segment as it is written in a pattern. -/
def written : Segment → List Char
  | .text s => s.toList
  | .slot => mark
  | .choice first others =>
    '[' :: [','].intercalate ((first :: others).map String.toList) ++ [']']

/-- A name belongs into the segment. -/
def hasSlot : Segment → Bool
  | .text _ => false
  | .slot => true
  | .choice first others => (first :: others).any fun piece => hasMark piece.toList

end Segment

end TagLogic
