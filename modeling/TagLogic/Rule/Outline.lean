import TagLogic.Rule.Word
import TagLogic.Text.Hidden

/-!
# Rules in a log

A log shows a rule as its tree on one line: the word of each node, and what it holds in
parentheses, a text in double quotes and the parts of a group in square brackets.

The operation `parse` logs a rule like this. A text is escaped as it is for debugging:
double quotes, backslashes and what does not show (`Text.isHidden`), but no single
quote.
-/

namespace TagLogic

/-- A character inside double quotes: escaped if it means something there or does not show. -/
def escaped (c : Char) : String :=
  if c = '"' then "\\\""
  else if c = '\\' then "\\\\"
  else if c = '\t' then "\\t"
  else if c = '\n' then "\\n"
  else if c = '\r' then "\\r"
  else if c = '\x00' then "\\0"
  else if Text.isHidden c then
    "\\u\x7b" ++ String.ofList (Nat.toDigits 16 c.toNat) ++ "\x7d"
  else .singleton c

/-- A text in double quotes. -/
def doubleQuoted (text : String) : String :=
  "\"" ++ String.join (text.toList.map escaped) ++ "\""

namespace Rule

mutual

/-- The tree of a rule on one line. -/
def outline : Rule → String
  | .always => word .always
  | .never => word .never
  | .tagged text => word (.tagged text) ++ "(" ++ doubleQuoted text ++ ")"
  | .named text => word (.named text) ++ "(" ++ doubleQuoted text ++ ")"
  | .not r => word (.not r) ++ "(" ++ r.outline ++ ")"
  | .group kind parts => kind.word ++ "([" ++ ", ".intercalate (outlines parts) ++ "])"

/-- The trees of the parts. -/
def outlines : List Rule → List String
  | [] => []
  | r :: rs => r.outline :: outlines rs

end

end Rule

end TagLogic
