import TagLogic.Json.Reader
import TagLogic.Rule.Word

/-!
# Rules in JSON

A rule that holds nothing is written as its word, every other rule as an object of one
field: the word, and what the rule holds. A rule that holds nothing may be read from an
object too, with `null` for what it holds.

Every rule is read back from what is written (`ofJson?_toJson`). From a text a rule is
read only if arrays and objects nest at most `maxNesting` deep.

The operations are the encoding and the decoding of rules, as they follow from the kinds
of node. On purpose the bound on the nesting is tested on the value and not while its
text is read; a rule has no fields that would be skipped, so that comes to the same.
-/

namespace TagLogic.Rule

/-! ## Writing -/

mutual

def toJson : Rule → Json
  | .always => .text (word .always)
  | .never => .text (word .never)
  | .tagged tag => .single (word (.tagged tag)) (.text tag)
  | .named name => .single (word (.named name)) (.text name)
  | .not r => .single (word (.not r)) r.toJson
  | .group kind parts => .single kind.word (.arr (toJsons parts))

def toJsons : List Rule → List Json
  | [] => []
  | r :: rs => r.toJson :: toJsons rs

end

/-! ## Reading -/

/-- The rule of the word, if it holds nothing. -/
def ofWord? (word : String) : Option Rule :=
  if word = "True" then some .always else if word = "False" then some .never else none

/-- The rule of the word that holds a text. -/
def ofText? (word text : String) : Option Rule :=
  if word = "Tag" then some (.tagged text) else if word = "Name" then some (.named text) else none

/-- The rule of the word that holds parts. -/
def ofParts? (word : String) (parts : List Rule) : Option Rule :=
  if word = "And" then some (.all parts) else if word = "Or" then some (.any parts) else none

mutual

/-- The rule that a JSON value stands for. -/
def ofJson? : Json → Option Rule
  | .text word => ofWord? word
  | .single word content =>
    -- A negation holds any rule, so its content may have any shape; the other words fix it.
    if word = "Not" then (ofJson? content).map .not
    else
      match content with
      | .null => ofWord? word
      | .text text => ofText? word text
      | .arr items => (ofJsons? items).bind (ofParts? word)
      | _ => none
  | _ => none

/-- The rules that JSON values stand for. -/
def ofJsons? : List Json → Option (List Rule)
  | [] => some []
  | j :: js => (ofJson? j).bind fun r => (ofJsons? js).map (r :: ·)

end

mutual

/-- **Every rule is read back from what is written.** -/
theorem ofJson?_toJson : ∀ r : Rule, ofJson? r.toJson = some r
  | .always => rfl
  | .never => rfl
  | .tagged _ => rfl
  | .named _ => rfl
  | .not r => by simp [toJson, word, ofJson?, ofJson?_toJson r]
  | .group kind parts => by
    cases kind <;> simp [toJson, Group.word, ofJson?, ofJsons?_toJsons parts, ofParts?]

theorem ofJsons?_toJsons : ∀ rs : List Rule, ofJsons? (toJsons rs) = some rs
  | [] => rfl
  | r :: rs => by simp [toJsons, ofJsons?, ofJson?_toJson r, ofJsons?_toJsons rs]

end

/-- How deep arrays and objects may nest in the text of a rule. -/
def maxNesting : Nat := 127

/-- The rule that a JSON text stands for. -/
def ofJsonText? (text : String) : Option Rule :=
  (Json.parse? text).bind fun j => if j.nestedWithin maxNesting then ofJson? j else none

end TagLogic.Rule
