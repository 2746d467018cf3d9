import TagLogic.Rule.Outline
import TagLogic.Rule.Reader

/-!
# What is logged

Reading a rule is an event, whether it succeeds or not, and so are the start and the end
of loading a catalog. A `Logged` value comes with the events that led to it, in order.
`andThen` puts two steps one after the other, the second only if the first succeeded, so
no event follows a failure.

The events are those of the operations `parse`, `from_strs` and `from_files`, and there
are no others. On purpose they are returned and not sent to a listener, so that what an
operation logs can be told from what it is given; when an event happened and who listens
is left out.
-/

namespace TagLogic

/-- How much an event matters. -/
inductive Level where
  /-- Of interest only when looking closely. -/
  | trace
  /-- Of interest when something goes wrong. -/
  | debug
  deriving DecidableEq, Repr

def Level.name : Level → String
  | .trace => "TRACE"
  | .debug => "DEBUG"

/-- What has happened. -/
inductive Event where
  /-- A text was read as a rule. -/
  | parsed (text : String) (rule : Rule)
  /-- A text was found to be no rule. -/
  | rejected (text : String) (error : SyntaxError)
  /-- The files of a catalog are about to be read. -/
  | reading (actors facts : String)
  /-- A catalog has been loaded, with so many actors and facts. -/
  | loaded (actors facts : Nat)
  deriving DecidableEq, Repr

/-- What an event says about something. -/
inductive Detail where
  | text (text : String)
  | count (count : Nat)
  deriving DecidableEq, Repr

namespace Event

def level : Event → Level
  | .parsed .. => .trace
  | _ => .debug

def message : Event → String
  | .parsed .. => "parsed rule"
  | .rejected .. => "rejected rule"
  | .reading .. => "reading catalog"
  | .loaded .. => "loaded catalog"

/-- The details of an event by name. -/
def details : Event → List (String × Detail)
  | .parsed text rule => [("rule", .text text), ("expr", .text rule.outline)]
  | .rejected text error => [("rule", .text text), ("err", .text error.message)]
  | .reading actors facts => [("actors", .text actors), ("facts", .text facts)]
  | .loaded actors facts => [("actors", .count actors), ("facts", .count facts)]

/-- The event of reading a text as a rule. -/
def ofParse (text : String) : Except SyntaxError Rule → Event
  | .ok rule => .parsed text rule
  | .error error => .rejected text error

end Event

/-- A value and the events that led to it. -/
structure Logged (α : Type) where
  value : α
  /-- The events, in the order they happened. -/
  events : List Event
  deriving DecidableEq, Repr

namespace Logged

variable {α β γ ε φ : Type}

/-- A value that took no events. -/
def silent (a : α) : Logged α := ⟨a, []⟩

/-- The same events with another value. -/
def map (f : α → β) (l : Logged α) : Logged β := ⟨f l.value, l.events⟩

@[simp] theorem value_silent (a : α) : (silent a).value = a := rfl

@[simp] theorem events_silent (a : α) : (silent a).events = [] := rfl

@[simp] theorem value_map (f : α → β) (l : Logged α) : (l.map f).value = f l.value := rfl

@[simp] theorem events_map (f : α → β) (l : Logged α) : (l.map f).events = l.events := rfl

/-- Goes on if the first step succeeded. -/
def andThen (first : Logged (Except ε α)) (next : α → Logged (Except ε β)) :
    Logged (Except ε β) :=
  match first.value with
  | .error e => ⟨.error e, first.events⟩
  | .ok a => ⟨(next a).value, first.events ++ (next a).events⟩

/-- **No event follows a failure.** -/
theorem andThen_of_error {first : Logged (Except ε α)} {e : ε} (h : first.value = .error e)
    (next : α → Logged (Except ε β)) : first.andThen next = ⟨.error e, first.events⟩ := by
  rw [andThen, h]

/-- After a success the events of the next step follow. -/
theorem andThen_of_ok {first : Logged (Except ε α)} {a : α} (h : first.value = .ok a)
    (next : α → Logged (Except ε β)) :
    first.andThen next = ⟨(next a).value, first.events ++ (next a).events⟩ := by
  rw [andThen, h]

/-- The values follow each other as without events. -/
theorem value_andThen (first : Logged (Except ε α)) (next : α → Logged (Except ε β)) :
    (first.andThen next).value = first.value.bind fun a => (next a).value := by
  cases h : first.value with
  | error e => rw [andThen_of_error h]; rfl
  | ok a => rw [andThen_of_ok h]; rfl

/-- Behind a success both steps succeeded. -/
theorem exists_ok_of_andThen {first : Logged (Except ε α)} {next : α → Logged (Except ε β)} {b : β}
    (h : (first.andThen next).value = .ok b) :
    ∃ a, first.value = .ok a ∧ (next a).value = .ok b := by
  cases hfirst : first.value with
  | error e =>
    rw [andThen_of_error hfirst] at h
    cases h
  | ok a =>
    rw [andThen_of_ok hfirst] at h
    exact ⟨a, rfl, h⟩

theorem andThen_assoc (first : Logged (Except ε α)) (next : α → Logged (Except ε β))
    (last : β → Logged (Except ε γ)) :
    (first.andThen next).andThen last = first.andThen fun a => (next a).andThen last := by
  cases hfirst : first.value with
  | error e => rw [andThen_of_error hfirst, andThen_of_error hfirst, andThen_of_error rfl]
  | ok a =>
    rw [andThen_of_ok hfirst, andThen_of_ok hfirst]
    cases hnext : (next a).value with
    | error e => rw [andThen_of_error rfl, andThen_of_error hnext]
    | ok b => rw [andThen_of_ok rfl, andThen_of_ok hnext, List.append_assoc]

/-- What is made of the second result is made by the second step. -/
theorem map_andThen (first : Logged (Except ε α)) (next : α → Logged (Except ε β)) (f : β → γ) :
    (first.andThen next).map (·.map f) = first.andThen fun a => (next a).map (·.map f) := by
  cases hfirst : first.value with
  | error e => rw [andThen_of_error hfirst, andThen_of_error hfirst]; rfl
  | ok a => rw [andThen_of_ok hfirst, andThen_of_ok hfirst]; rfl

/-- What is made of the first result may be made by the second step. -/
theorem andThen_map (first : Logged (Except ε α)) (f : α → β) (next : β → Logged (Except ε γ)) :
    (first.map (·.map f)).andThen next = first.andThen fun a => next (f a) := by
  have hvalue : (first.map (·.map f)).value = first.value.map f := value_map _ first
  cases hfirst : first.value with
  | error e =>
    rw [hfirst] at hvalue
    rw [andThen_of_error hfirst, andThen_of_error hvalue, events_map]
  | ok a =>
    rw [hfirst] at hvalue
    rw [andThen_of_ok hfirst, andThen_of_ok hvalue, events_map]

/-- Errors are changed in both steps. -/
theorem mapError_andThen (first : Logged (Except ε α)) (next : α → Logged (Except ε β))
    (f : ε → φ) : (first.andThen next).map (·.mapError f) =
      (first.map (·.mapError f)).andThen fun a => (next a).map (·.mapError f) := by
  have hvalue : (first.map (·.mapError f)).value = first.value.mapError f := value_map _ first
  cases hfirst : first.value with
  | error e =>
    rw [hfirst] at hvalue
    rw [andThen_of_error hfirst, andThen_of_error hvalue]
    rfl
  | ok a =>
    rw [hfirst] at hvalue
    rw [andThen_of_ok hfirst, andThen_of_ok hvalue]
    rfl

end Logged

/-- Reads a rule and logs the outcome. -/
def Rule.parseLogged (text : String) : Logged (Except SyntaxError Rule) :=
  let outcome := Rule.parse text
  ⟨outcome, [Event.ofParse text outcome]⟩

/-- Logging does not change the outcome. -/
@[simp] theorem Rule.value_parseLogged (text : String) :
    (Rule.parseLogged text).value = Rule.parse text := rfl

end TagLogic
