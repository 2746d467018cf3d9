import TagLogic.Rule.Mark

/-!
# What can be wrong with a written rule

A `Fault` is a cause; a `SyntaxError` is a fault and how many characters were read
before it. The wording of each is given once, in `Fault.message` and
`SyntaxError.message`.

A `Fault` is what a production raises with `fail_with`, a `SyntaxError` what the
operation `parse` returns for it. On purpose the place of a fault is no part of it while
the text is read: the reader keeps the unread text instead (`Reader.Stop`) and counts
once, in the end.
-/

namespace TagLogic

/-- Why a text is not a rule. -/
inductive Fault where
  /-- The text ends where a rule has to begin. -/
  | noRule
  /-- No rule begins with the character. -/
  | strayMark (found : Char)
  /-- No name follows the sign of a name. -/
  | noText
  /-- The text ends inside a group. -/
  | unclosed (kind : Group)
  /-- A group is ended by the closer of the other kind. -/
  | wrongCloser (kind : Group) (found : Char)
  /-- A group has no parts. -/
  | emptyGroup (kind : Group)
  /-- A separator has no part before it, or none after it. -/
  | emptyClause
  /-- A part of a group is followed by something other than a separator or a closer. -/
  | noSeparator (kind : Group) (found : Char)
  /-- Something follows the rule. -/
  | trailing (found : Char)
  /-- More negations and groups are open around each other than allowed. -/
  | tooDeep (limit : Nat)
  deriving DecidableEq, Repr

/-- A fault and the number of characters before it. -/
structure SyntaxError where
  fault : Fault
  /-- How many characters stand before the place where it shows. -/
  offset : Nat
  deriving DecidableEq, Repr

/-- A text in single quotes. -/
def quoted (text : String) : String := "'" ++ text ++ "'"

/-- How messages speak of a group of the kind. -/
def Group.message (kind : Group) : String := quoted (String.singleton kind.opener) ++ " group"

def Fault.message : Fault → String
  | .noRule => "expected a rule, found end of input"
  | .strayMark c => "unexpected character " ++ quoted (.singleton c) ++ " at start of rule"
  | .noText => "expected a name or tag, found nothing"
  | .unclosed g => g.message ++ " is not closed"
  | .wrongCloser g c =>
    g.message ++ " closed by " ++ quoted (.singleton c) ++ ", expected " ++
      quoted (.singleton g.closer)
  | .emptyGroup g => g.message ++ " contains no rules"
  | .emptyClause => "empty rule between separators"
  | .noSeparator g c =>
    "expected ',' or " ++ quoted (.singleton g.closer) ++ " in " ++ g.message ++ ", found " ++
      quoted (.singleton c)
  | .trailing c => "unexpected " ++ quoted (.singleton c) ++ " after complete rule"
  | .tooDeep limit => "rule nested deeper than " ++ Nat.repr limit ++ " levels"

def SyntaxError.message (e : SyntaxError) : String :=
  "rule syntax error at offset " ++ Nat.repr e.offset ++ ": " ++ e.fault.message

end TagLogic
