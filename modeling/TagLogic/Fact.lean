import TagLogic.FormatError
import TagLogic.Log
import TagLogic.Pattern.Render
import TagLogic.Rule.Ask

/-!
# Facts

A fact is a sentence pattern and a rule that says about whom it may be told. Its line is
the pattern, and behind a bar the rule; only the first bar divides, and without one the
fact goes for everybody. White space around the pattern does not count. The rule is read
first, so its fault is told even where the pattern has one too.

A fact applies to nobody when its pattern has no place for a name, and then its rule is
not even asked (`ask_of_not_hasSlot`).

Of the operations on facts, `new` is `ofPattern` here, `from_str` is `ofLine`, or
`readLine` with its log, and `is_applicable_to` is `ask`. On purpose reading is given
with and without the log; `value_readLine` says that they differ in nothing else.
-/

namespace TagLogic

/-- A sentence pattern and the rule that guards it. -/
structure Fact where
  /-- What the fact says. -/
  pattern : Pattern
  /-- About whom. -/
  rule : Rule
  deriving DecidableEq

namespace Fact

/-! ## Applying -/

/-- Asks the entity just enough to tell whether the fact applies to it. -/
def ask (f : Fact) (e : Entity) : Answer :=
  -- The pattern is looked at first, so a fact about nobody asks nothing.
  if f.pattern.hasSlot then f.rule.ask e else ⟨false, []⟩

/-- The fact applies to the entity. -/
def appliesTo (f : Fact) (e : Entity) : Bool := (f.ask e).verdict

/-- Without a place for a name nothing is asked. -/
theorem ask_of_not_hasSlot {f : Fact} (h : f.pattern.hasSlot = false) (e : Entity) :
    f.ask e = ⟨false, []⟩ := by
  rw [ask, h]
  rfl

/-- **A fact applies where it has a place for a name and its rule holds.** -/
theorem appliesTo_eq (f : Fact) (e : Entity) :
    f.appliesTo e = (f.pattern.hasSlot && f.rule.holds e) := by
  rw [appliesTo, ask]
  cases f.pattern.hasSlot
  · rfl
  · simpa using f.rule.ask_verdict e

/-! ## Building and reading -/

/-- The fact of a pattern, taken as it is, and a rule. -/
def ofPattern (pattern : String) (rule : Rule) : Except FormatError Fact :=
  match Pattern.ofText? pattern with
  | some pattern => .ok ⟨pattern, rule⟩
  | none => .error (.unbalancedBrackets pattern)

theorem ofPattern_eq_ok_iff {text : String} {rule : Rule} {f : Fact} :
    ofPattern text rule = .ok f ↔ f.pattern.text = text ∧ f.rule = rule := by
  obtain ⟨pattern, rule'⟩ := f
  rw [ofPattern, ← Pattern.ofText?_eq_some_iff]
  cases Pattern.ofText? text with
  | none => simp
  | some p => simp [eq_comm]

/-- The fact of a pattern and what came of reading its rule. -/
def ofOutcome (pattern : String) : Except SyntaxError Rule → Except FormatError Fact
  | .ok rule => ofPattern pattern rule
  | .error error => .error (.badRule error)

/-- The pattern of a line, and the text of its rule if there is a bar. -/
def splitLine (line : String) : String × Option String :=
  let (pattern, rule) := Text.cutAt '|' line.toList
  (.ofList (Text.trim pattern), rule.map .ofList)

/-- Reads the line of a fact. -/
def ofLine (line : String) : Except FormatError Fact :=
  match splitLine line with
  | (pattern, none) => ofPattern pattern .always
  | (pattern, some rule) => ofOutcome pattern (Rule.parse rule)

/-- Reads the line of a fact and logs the reading of its rule. -/
def readLine (line : String) : Logged (Except FormatError Fact) :=
  match splitLine line with
  | (pattern, none) => .silent (ofPattern pattern .always)
  | (pattern, some rule) => (Rule.parseLogged rule).map (ofOutcome pattern)

/-- **Logging does not change what is read.** -/
@[simp] theorem value_readLine (line : String) : (readLine line).value = ofLine line := by
  unfold readLine ofLine
  split <;> rfl

end Fact

end TagLogic
