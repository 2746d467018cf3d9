/-!
# JSON values

A value as it stands in a JSON text: fields keep their order and may repeat, and a number
is kept by how it is written. A text may escape half of a surrogate pair without the
other half; such a text has no characters, and in its place stands `none`.

`nestedWithin` bounds how deep arrays and objects stand inside each other, and looks no
deeper than the bound.

Rules, actors and groups are encoded as such values and decoded from them. On purpose
there are more values than are ever written, since any value may be given to be decoded.
-/

namespace TagLogic

/-- A JSON value. -/
inductive Json where
  /-- The value that is none. -/
  | null
  | bool (value : Bool)
  /-- A number, as it is written. -/
  | num (literal : String)
  /-- A text, if it has characters. -/
  | str (text : Option String)
  | arr (items : List Json)
  /-- An object: named fields in order, where a name may repeat. -/
  | obj (fields : List (Option String × Json))
  deriving Repr, Inhabited

namespace Json

/-- A text that has characters. -/
@[match_pattern] abbrev text (s : String) : Json := .str (some s)

/-- An object of one field. -/
@[match_pattern] abbrev single (key : String) (value : Json) : Json := .obj [(some key, value)]

/-- An array or an object. -/
def isNested : Json → Bool
  | .arr _ => true
  | .obj _ => true
  | _ => false

/-- The values directly inside. -/
def inside : Json → List Json
  | .arr items => items
  | .obj fields => fields.map (·.2)
  | _ => []

/-- At most so many arrays and objects stand inside each other. -/
def nestedWithin : Nat → Json → Bool
  | 0, j => !j.isNested
  | n + 1, j => j.inside.all (nestedWithin n)

end Json

end TagLogic
