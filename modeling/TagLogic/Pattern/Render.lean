import TagLogic.Pattern.Basic

/-!
# Rendering a pattern about a name

Rendering goes through the segments once. Each choice is shown to a `Chooser`, which
answers any number; the number counts modulo the number of pieces, so there is always a
piece to use. The slots of a segment are filled with the name, and what has been filled
in is not looked at again, so a name may hold slots and brackets of its own.

- `renderFrom_shown` — every choice is shown once, from left to right, whatever the name
  and the answers.

The operations `render_with` and `about` are `render` and `about` here, of a pattern and
a name, since they look at nothing else of a fact and an actor. On purpose a chooser is
a function of everything it has been shown: one that keeps a state of its own has no
more than that to go by. What it was shown is part of the result.
-/

namespace TagLogic

/-- Picks a piece: sees the choices shown before, the latest first, and the pieces offered now. -/
abbrev Chooser := List (List String) → List String → Nat

/-- Always picks the first piece. -/
def Chooser.first : Chooser := fun _ _ => 0

/-- A rendered text and the choices that were shown on the way, in order. -/
structure Rendering where
  text : String
  shown : List (List String)
  deriving DecidableEq, Repr

namespace Segment

/-- The text with its slots filled. -/
def fill (name : String) (s : String) : String :=
  .ofList (name.toList.intercalate (aroundSlots s.toList))

/-- The piece of a number, counted modulo the number of pieces. -/
def pick (first : String) (others : List String) (n : Nat) : String :=
  (first :: others).get ⟨n % (others.length + 1), Nat.mod_lt n (Nat.succ_pos _)⟩

/-- Renders segments about a name, after some choices have been shown. -/
def renderFrom (name : String) (chooser : Chooser) (before : List (List String)) :
    List Segment → Rendering
  | [] => ⟨"", []⟩
  | .text s :: rest =>
    let r := renderFrom name chooser before rest
    ⟨s ++ r.text, r.shown⟩
  | .slot :: rest =>
    let r := renderFrom name chooser before rest
    ⟨name ++ r.text, r.shown⟩
  | .choice first others :: rest =>
    let offered := first :: others
    let r := renderFrom name chooser (offered :: before) rest
    ⟨fill name (pick first others (chooser before offered)) ++ r.text, offered :: r.shown⟩

/-- **Every choice is shown once, from left to right.** -/
theorem renderFrom_shown (name : String) (chooser : Chooser) (before : List (List String))
    (segments : List Segment) :
    (renderFrom name chooser before segments).shown =
      (segments.map pieces).filter (· ≠ []) := by
  induction segments generalizing before with
  | nil => rfl
  | cons segment rest ih => cases segment <;> simp [renderFrom, pieces, ih]

end Segment

namespace Pattern

/-- Renders the pattern about a name. -/
def render (p : Pattern) (name : String) (chooser : Chooser) : Rendering :=
  Segment.renderFrom name chooser [] p.segments

/-- The pattern about a name, with the first piece of every choice. -/
def about (p : Pattern) (name : String) : String := (p.render name .first).text

/-- The choices of a pattern are what a chooser is shown. -/
theorem render_shown (p : Pattern) (name : String) (chooser : Chooser) :
    (p.render name chooser).shown = p.choices :=
  Segment.renderFrom_shown name chooser [] p.segments

end Pattern

end TagLogic
