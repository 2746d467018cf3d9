import TagLogic.Actor
import TagLogic.Json.Reader
import TagLogic.Rule.Basic

/-!
# Actors and groups in JSON

An actor is an object of its name and its tags. It is read from an object that has both
fields once each, whatever other fields there are, or from an array of the two values;
tags are put in order, and neither name nor tags are trimmed. A kind of group is its
name.

The operations are the encoding and the decoding of actors and of kinds of group. On
purpose fields that are skipped may hold anything, nested to any depth.
-/

namespace TagLogic

namespace Actor

/-- An actor as a JSON value. -/
def toJson (a : Actor) : Json :=
  .obj [(some "name", .text a.name), (some "tags", .arr (a.tags.toList.map .text))]

/-- The text of a JSON value. -/
def text? : Json → Option String
  | .text s => some s
  | _ => none

/-- The actor of a value for the name and a value for the tags. -/
def ofValues? : Json → Json → Option Actor
  | .text name, .arr tags => (tags.mapM text?).map (ofName name).withTags
  | _, _ => none

/-- The values of the fields of the name. -/
def valuesOf (key : String) (fields : List (Option String × Json)) : List Json :=
  (fields.filter (·.1 = some key)).map (·.2)

/-- The actor that a JSON value stands for. The names of all fields have to be texts. -/
def ofJson? : Json → Option Actor
  | .arr [name, tags] => ofValues? name tags
  | .obj fields =>
    if fields.all (·.1.isSome) then
      match valuesOf "name" fields, valuesOf "tags" fields with
      | [name], [tags] => ofValues? name tags
      | _, _ => none
    else none
  | _ => none

theorem mapM_text? (texts : List String) : (texts.map Json.text).mapM text? = some texts := by
  induction texts with
  | nil => rfl
  | cons s rest ih => simp [List.mapM_cons, text?, ih]

/-- **Every actor is read back from what is written.** -/
theorem ofJson?_toJson (a : Actor) : ofJson? a.toJson = some a := by
  have htags : (ofName a.name).withTags a.tags.toList = a := by
    rw [withTags, ofName]
    exact congrArg (Actor.mk a.name) (TagSet.ofList_toList a.tags)
  have hvalues : ofValues? (.text a.name) (.arr (a.tags.toList.map .text)) = some a := by
    rw [ofValues?, mapM_text?]
    exact congrArg some htags
  simpa [toJson, ofJson?, valuesOf] using hvalues

/-- The actor that a JSON text stands for. -/
def ofJsonText? (text : String) : Option Actor := (Json.parse? text).bind ofJson?

end Actor

namespace Group

/-- The name of a kind of group. -/
def name : Group → String
  | .all => "All"
  | .any => "Any"

/-- A kind of group as a JSON value. -/
def toJson (kind : Group) : Json := .text kind.name

/-- The kind of group of that name. -/
def ofName? (name : String) : Option Group :=
  if name = "All" then some .all else if name = "Any" then some .any else none

/-- The kind of group that a JSON value stands for. -/
def ofJson? : Json → Option Group
  | .text name => ofName? name
  | .single name .null => ofName? name
  | _ => none

/-- Every kind of group is read back from what is written. -/
theorem ofJson?_toJson (kind : Group) : ofJson? kind.toJson = some kind := by
  cases kind <;> rfl

/-- The kind of group that a JSON text stands for. -/
def ofJsonText? (text : String) : Option Group := (Json.parse? text).bind ofJson?

end Group

end TagLogic
