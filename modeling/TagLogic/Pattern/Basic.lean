import TagLogic.Pattern.Segment

/-!
# Sentence patterns

A `Pattern` is a text with balanced brackets, together with its segments: who holds a
pattern need not ask again whether it can be read. Patterns with the same text are equal
(`ext_text`), and a text is a pattern exactly when it has segments (`ofText?_eq_some_iff`).

A fact keeps its pattern and the segments side by side; on purpose they are one value here,
with a proof that they belong together. The operation `has_placeholder` is `hasSlot`.
-/

namespace TagLogic

/-- A text that has segments, and these segments. -/
structure Pattern where
  /-- The text as it was given. -/
  text : String
  segments : List Segment
  segments?_text : Segment.segments? text.toList = some segments
  deriving DecidableEq

namespace Pattern

theorem ext_text {p q : Pattern} (h : p.text = q.text) : p = q := by
  obtain ⟨s, segs, hs⟩ := p
  obtain ⟨t, segs', ht⟩ := q
  obtain rfl : s = t := h
  obtain rfl : segs = segs' := Option.some.inj (hs.symm.trans ht)
  rfl

/-- The pattern of a text, if its brackets are balanced. -/
def ofText? (text : String) : Option Pattern :=
  match h : Segment.segments? text.toList with
  | none => none
  | some segments => some ⟨text, segments, h⟩

/-- **A text is a pattern exactly when it has segments.** -/
theorem ofText?_eq_some_iff {text : String} {p : Pattern} :
    ofText? text = some p ↔ p.text = text := by
  unfold ofText?
  constructor
  · intro h
    split at h
    next => cases h
    next =>
      cases h
      rfl
  · rintro rfl
    split
    next h => rw [p.segments?_text] at h; cases h
    next h => exact congrArg some (ext_text rfl)

theorem ofText?_eq_none_iff {text : String} :
    ofText? text = none ↔ Segment.segments? text.toList = none := by
  unfold ofText?
  split
  next h => simp [h]
  next h => simp [h]

/-- A name belongs somewhere into the pattern, in its text or in one of its choices. -/
def hasSlot (p : Pattern) : Bool := p.segments.any Segment.hasSlot

/-- The choices of the pattern from left to right, each with its pieces. -/
def choices (p : Pattern) : List (List String) :=
  (p.segments.map Segment.pieces).filter (· ≠ [])

end Pattern

end TagLogic
