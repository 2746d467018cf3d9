import TagLogic.Actor
import TagLogic.Fact

/-!
# Catalogs

A catalog is a list of actors and a list of facts, both in the order they were given.
Names may repeat; the first actor of a name is the one that is found. Facts are selected
by asking each of them, in order.

The operations `actor` and `facts_about` are `actor?` and `factsAbout` here. On purpose
the facts are selected all at once, where `facts_about` hands them out one by one;
`questionsAbout` are the questions that are put when it is gone through to its end.
-/

namespace TagLogic

/-- Actors and facts. -/
structure Catalog where
  actors : List Actor
  facts : List Fact
  deriving DecidableEq

namespace Catalog

instance : EmptyCollection Catalog := ⟨⟨[], []⟩⟩

instance : Inhabited Catalog := ⟨∅⟩

/-- The first actor of the name. -/
def actor? (c : Catalog) (name : String) : Option Actor := c.actors.find? (·.name = name)

/-- The facts that apply to the entity, in order. -/
def factsAbout (c : Catalog) (e : Entity) : List Fact := c.facts.filter (·.appliesTo e)

/-- The questions the entity is asked when its facts are selected. -/
def questionsAbout (c : Catalog) (e : Entity) : List Question :=
  c.facts.flatMap fun f => (f.ask e).asked

end Catalog

end TagLogic
