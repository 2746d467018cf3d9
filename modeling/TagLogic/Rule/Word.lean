import TagLogic.Rule.Basic

/-!
# The words of rules

Each kind of node has a word, by which logs and JSON call it; different kinds have
different words.

The words are those of the nodes in what `parse` logs and in the encoding of a rule. A
kind of group by itself is encoded by another name (`Group.name`).
-/

namespace TagLogic

/-- The words for the two kinds of group. -/
def Group.word : Group → String
  | .all => "And"
  | .any => "Or"

/-- The word for the topmost node of a rule. -/
def Rule.word : Rule → String
  | .always => "True"
  | .never => "False"
  | .tagged _ => "Tag"
  | .named _ => "Name"
  | .not _ => "Not"
  | .group kind _ => kind.word

end TagLogic
