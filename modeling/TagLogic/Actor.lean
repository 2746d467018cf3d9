import TagLogic.Entity
import TagLogic.FormatError
import TagLogic.TagSet
import TagLogic.Text.Blank
import TagLogic.Text.Pieces

/-!
# Actors

An actor is a name and a set of tags. Its line is the name, and behind a bar the tags
with commas between them; white space around the name and around each tag does not
count, nor do empty tags. Only the first bar divides, so a tag may hold a bar and a name
may not.

Of the operations on actors, `from_str` is `ofLine` here and the display form is
`toLine`; `new`, `with_tags`, `insert_tag`, `has_tag` and `has_tags` are `ofName`,
`withTags`, `insertTag`, `hasTag` and `hasTags`. On purpose nothing is changed in place:
`insertTag` returns the new actor along with the answer.
-/

namespace TagLogic

/-- Somebody with a name and a set of tags. -/
structure Actor where
  name : String
  tags : TagSet
  deriving DecidableEq, Repr, Inhabited

namespace Actor

/-- The actor of the name without tags. -/
def ofName (name : String) : Actor := ⟨name, .empty⟩

/-- The actor with more tags. -/
def withTags (a : Actor) (tags : List String) : Actor := ⟨a.name, a.tags.insertMany tags⟩

/-- The actor with one more tag, and whether the tag is new. -/
def insertTag (a : Actor) (tag : String) : Bool × Actor :=
  (tag ∉ a.tags, ⟨a.name, a.tags.insert tag⟩)

def hasTag (a : Actor) (tag : String) : Bool := tag ∈ a.tags

/-- The actor has a tag. -/
def hasTags (a : Actor) : Bool := a.tags.toList ≠ []

/-- The actor as somebody a rule can be asked about. -/
def toEntity (a : Actor) : Entity := ⟨a.name, a.hasTag⟩

theorem hasTag_iff {a : Actor} {tag : String} : a.hasTag tag = true ↔ tag ∈ a.tags :=
  decide_eq_true_iff

theorem hasTags_iff {a : Actor} : a.hasTags = true ↔ ∃ tag, tag ∈ a.tags := by
  refine decide_eq_true_iff.trans ⟨List.exists_mem_of_ne_nil _, fun h => ?_⟩
  obtain ⟨tag, htag⟩ := h
  exact List.ne_nil_of_mem htag

/-- A tag is told to be new exactly when the actor does not have it. -/
theorem insertTag_fst_iff {a : Actor} {tag : String} :
    (a.insertTag tag).1 = true ↔ tag ∉ a.tags :=
  decide_eq_true_iff

/-- An actor is its name and its tags. -/
theorem eq_of_tags {a b : Actor} (hname : a.name = b.name)
    (htags : ∀ tag, tag ∈ a.tags ↔ tag ∈ b.tags) : a = b := by
  obtain ⟨name, tags⟩ := a
  obtain ⟨name', tags'⟩ := b
  exact congr (congrArg Actor.mk hname) (TagSet.ext htags)

/-! ## The line of an actor -/

/-- The tags in the part of a line behind the bar. -/
def tagsOfText (s : List Char) : List String :=
  (((s.splitOn ',').map Text.trim).filter (· ≠ [])).map String.ofList

/-- Reads the line of an actor. -/
def ofLine (line : String) : Except FormatError Actor :=
  let (name, tags) := Text.cutAt '|' line.toList
  match Text.trim name with
  | [] => .error .emptyName
  | name => .ok ((ofName (.ofList name)).withTags (tagsOfText (tags.getD [])))

/-- Writes the line of an actor. -/
def toLine (a : Actor) : String :=
  if a.hasTags then a.name ++ " | " ++ ", ".intercalate a.tags.toList else a.name

end Actor

end TagLogic
