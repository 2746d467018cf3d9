/-!
# Somebody a rule can be asked about

All that a rule may learn of an entity are its name and, tag by tag, whether it has the
tag. Each time one of the two is looked up is a `Question`; an `Answer` carries the
verdict together with the questions it took, in the order they were put.

The two are the operations `name` and `has_tag`, and `is_tagged_with_any` is `askAny`.
On purpose the questions are part of the answer. An operation that asks leaves no trace
of it; here it can be said what it asked.
-/

namespace TagLogic

/-- Somebody with a name and tags. -/
structure Entity where
  name : String
  hasTag : String → Bool

/-- What an entity can be asked. -/
inductive Question where
  | name
  | tag (tag : String)
  deriving DecidableEq, Repr

/-- A verdict and the questions it took. -/
structure Answer where
  verdict : Bool
  /-- The questions put to the entity, in order. -/
  asked : List Question
  deriving DecidableEq, Repr

/-- Whether the entity has one of the tags: asks for one after the other until it has one. -/
def Entity.askAny (e : Entity) : List String → Answer
  | [] => ⟨false, []⟩
  | tag :: tags =>
    if e.hasTag tag then ⟨true, [.tag tag]⟩
    else
      let rest := e.askAny tags
      ⟨rest.verdict, .tag tag :: rest.asked⟩

theorem Entity.askAny_verdict (e : Entity) (tags : List String) :
    (e.askAny tags).verdict = tags.any e.hasTag := by
  induction tags with
  | nil => rfl
  | cons tag tags ih =>
    rw [askAny, List.any_cons]
    split
    next h => simp [h]
    next h => simp [h, ih]

end TagLogic
