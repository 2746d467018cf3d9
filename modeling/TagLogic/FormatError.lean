import TagLogic.Rule.Fault

/-!
# What can be wrong with a line

The faults of an actor line or a fact line, their wording, and for each the wordings of
what caused it, the nearest cause first.

The operations `from_str`, of an actor or a fact, and `new`, of a fact, fail with one of
these.
-/

namespace TagLogic

/-- Why a line is not an actor or a fact. -/
inductive FormatError where
  /-- An actor has no name. -/
  | emptyName
  /-- The brackets of the pattern do not pair up side by side. -/
  | unbalancedBrackets (pattern : String)
  /-- The rule of a fact cannot be read. -/
  | badRule (error : SyntaxError)
  deriving DecidableEq, Repr

namespace FormatError

def message : FormatError → String
  | .emptyName => "actor name is empty"
  | .unbalancedBrackets pattern => "unbalanced substitution brackets in " ++ quoted pattern
  | .badRule error => "invalid rule: " ++ error.message

/-- The wordings of what caused the error. -/
def causes : FormatError → List String
  | .badRule error => [error.message]
  | _ => []

end FormatError

end TagLogic
