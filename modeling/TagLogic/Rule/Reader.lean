import TagLogic.Rule.Fault
import TagLogic.Text.Blank

/-!
# Reading rules

The reader goes through a text once, from left to right. It remembers the negations and
groups it has opened and not yet closed, innermost first, as a list of `Frame`s, and
stands in one of two `State`s: a rule is `due`, or a rule is `done` and the innermost
frame decides what may follow it. Each step (`begin`, `close`) looks past the blanks at
one character and either fails there or goes on with less to read; `run` repeats the
steps until a rule is done and no frame is open, and returns it with what was not read.

The nesting limit is a parameter: `run none` reads without one. A step that would open a
frame compares the number of open frames with the limit, so frames that were closed
again do not count.

- `close_decreases`, `begin_decreases` — each step shrinks `State.size`, which is why
  `run` ends;
- `parse` — the public reader: one rule, blanks around it, and nothing else.

The grammar is that of the productions `rule_text`, `rule`, `group`, `negation`, `name`,
`tag` and `text`: `begin` is `rule` up to the first rule inside, `close` what `negation`
and `group` do behind a rule, `noRuleAt` what `group` and `rule` raise where none
begins, `word` is `text`, and `readAll` is `rule_text`. On purpose they do not call each
other here. The calls that would be open are the frames, and the depth that the
productions hand down is the number of frames, so every proof is about single steps. On
purpose, too, the limit is an argument: the reader with a limit can be compared with the
one without.
-/

namespace TagLogic

/-- A negation or a group that is open: a rule in it is due or just done. -/
inductive Frame where
  /-- A negation sign, whose rule comes next. -/
  | negation
  /-- A group, with the parts read before, the latest first. -/
  | group (kind : Group) (before : List Rule)
  deriving DecidableEq, Repr

/-- The frame that a character opens. -/
def Frame.opened? : Char → Option Frame
  | '!' => some .negation
  | '(' => some (.group .all [])
  | '[' => some (.group .any [])
  | _ => none

namespace Reader

/-- A fault and what was left to read where it showed. -/
structure Stop where
  fault : Fault
  /-- The text from the place of the fault on. -/
  unread : List Char
  deriving DecidableEq, Repr

/-- Where the reader stands. -/
inductive State where
  /-- A rule has to come next. -/
  | due (frames : List Frame)
  /-- A rule has just been read. -/
  | done (rule : Rule) (frames : List Frame)
  deriving DecidableEq, Repr

def State.frames : State → List Frame
  | .due frames => frames
  | .done _ frames => frames

/-- A bound on the steps that are left. -/
def State.size (state : State) (s : List Char) : Nat := 2 * s.length + state.frames.length

/-! ## Single steps -/

/-- The longest run of text at the start, without the blanks around it, and what follows it. -/
def word (s : List Char) : Except Stop (String × List Char) :=
  match Text.strip isBlank (s.takeWhile (!isReserved ·)) with
  | [] => .error ⟨.noText, s⟩
  | text => .ok (String.ofList text, s.dropWhile (!isReserved ·))

/-- Why no rule begins with the character, or at the end, where one is due inside the frames. -/
def noRuleAt : List Frame → Option Char → Fault
  | .group kind _ :: _, none => .unclosed kind
  | .group kind before :: _, some c =>
    -- Behind a separator a closer leaves a clause empty, right behind the opener the group.
    if c = ',' ∨ before ≠ [] then .emptyClause
    else if c = kind.closer then .emptyGroup kind
    else .wrongCloser kind c
  | _, none => .noRule
  | _, some c => .strayMark c

/-- A rule is due: opens a frame or reads a name or a tag. -/
def begin (limit : Option Nat) (depth : Nat) (frames : List Frame) (s : List Char) :
    Except Stop (State × List Char) :=
  match skipBlanks s with
  | [] => .error ⟨noRuleAt frames none, []⟩
  | c :: rest =>
    match Frame.opened? c with
    | some frame =>
      -- The limit comes first: too deep an opener is at fault whatever follows it.
      match limit.filter (· ≤ depth + frames.length) with
      | some most => .error ⟨.tooDeep most, c :: rest⟩
      | none => .ok (.due (frame :: frames), rest)
    | none =>
      if c = '@' then
        (word rest).map fun w => (.done (.named w.1) frames, w.2)
      else if isReserved c then
        .error ⟨noRuleAt frames (some c), c :: rest⟩
      else
        (word (c :: rest)).map fun w => (.done (.tagged w.1) frames, w.2)

/-- A rule is done inside a frame: closes the frame or goes on to the next part. -/
def close (rule : Rule) : Frame → List Frame → List Char → Except Stop (State × List Char)
  | .negation, frames, s => .ok (.done (.not rule) frames, s)
  | .group kind before, frames, s =>
    match skipBlanks s with
    | [] => .error ⟨.unclosed kind, []⟩
    | c :: rest =>
      if c = ',' then .ok (.due (.group kind (rule :: before) :: frames), rest)
      else if c = kind.closer then
        .ok (.done (.group kind (rule :: before).reverse) frames, rest)
      else if isCloser c then .error ⟨.wrongCloser kind c, c :: rest⟩
      else .error ⟨.noSeparator kind c, c :: rest⟩

/-! ## Every step leaves less to do -/

theorem length_le_of_word {s rest : List Char} {text : String} (h : word s = .ok (text, rest)) :
    rest.length ≤ s.length := by
  unfold word at h
  split at h
  next => cases h
  next =>
    cases h
    exact (List.dropWhile_sublist _).length_le

theorem length_le_of_word_cons {c : Char} {s rest : List Char} {text : String}
    (hc : isReserved c = false) (h : word (c :: s) = .ok (text, rest)) :
    rest.length ≤ s.length := by
  unfold word at h
  split at h
  next => cases h
  next =>
    cases h
    simp only [List.dropWhile_cons, hc, Bool.not_false, if_true]
    exact (List.dropWhile_sublist _).length_le

theorem begin_decreases {limit : Option Nat} {depth : Nat} {frames : List Frame}
    {s s' : List Char} {state : State} (h : begin limit depth frames s = .ok (state, s')) :
    state.size s' < (State.due frames).size s := by
  have hblanks := length_skipBlanks_le s
  unfold begin at h
  split at h
  next => cases h
  next c rest heq =>
    rw [heq, List.length_cons] at hblanks
    split at h
    next frame _ =>
      split at h
      next => cases h
      next =>
        cases h
        simp only [State.size, State.frames, List.length_cons]
        omega
    next =>
      split at h
      next =>
        cases hw : word rest with
        | error e => rw [hw] at h; cases h
        | ok w =>
          have hlen := length_le_of_word (hw : word rest = .ok (w.1, w.2))
          rw [hw] at h
          cases h
          simp only [State.size, State.frames]
          omega
      next =>
        split at h
        next => cases h
        next hc =>
          cases hw : word (c :: rest) with
          | error e => rw [hw] at h; cases h
          | ok w =>
            have hlen := length_le_of_word_cons (by simpa using hc)
              (hw : word (c :: rest) = .ok (w.1, w.2))
            rw [hw] at h
            cases h
            simp only [State.size, State.frames]
            omega

/-- Closing a frame or going on in it shrinks the size. -/
theorem close_decreases {rule : Rule} {frame : Frame} {frames : List Frame}
    {s s' : List Char} {state : State} (h : close rule frame frames s = .ok (state, s')) :
    state.size s' < (State.done rule (frame :: frames)).size s := by
  have hblanks := length_skipBlanks_le s
  cases frame with
  | negation =>
    cases h
    simp only [State.size, State.frames, List.length_cons]
    omega
  | group kind before =>
    simp only [close] at h
    split at h
    next => cases h
    next c rest heq =>
      rw [heq, List.length_cons] at hblanks
      split at h
      next =>
        cases h
        simp only [State.size, State.frames, List.length_cons]
        omega
      next =>
        split at h
        next =>
          cases h
          simp only [State.size, State.frames, List.length_cons]
          omega
        next => split at h <;> cases h

/-! ## The whole run -/

/-- Reads one rule, with `depth` frames open around it, and returns it with the unread text. -/
def run (limit : Option Nat) (depth : Nat) : State → List Char →
    Except Stop (Rule × List Char)
  | .done rule [], s => .ok (rule, s)
  | .done rule (frame :: frames), s =>
    match _h : close rule frame frames s with
    | .error e => .error e
    | .ok (state, s') => run limit depth state s'
  | .due frames, s =>
    match _h : begin limit depth frames s with
    | .error e => .error e
    | .ok (state, s') => run limit depth state s'
termination_by state s => state.size s
decreasing_by
  · exact close_decreases _h
  · exact begin_decreases _h

/-- Reads one rule; blanks may stand around it, and nothing else may follow. -/
def readAll (limit : Option Nat) (s : List Char) : Except Stop Rule :=
  match run limit 0 (.due []) s with
  | .error e => .error e
  | .ok (rule, rest) =>
    match skipBlanks rest with
    | [] => .ok rule
    | c :: more => .error ⟨.trailing c, c :: more⟩

end Reader

namespace Rule

/-- How many negations and groups may be open around each other. -/
def maxDepth : Nat := 128

/-- Reads a rule with any nesting limit, or none. -/
def parseWithin (limit : Option Nat) (text : String) : Except SyntaxError Rule :=
  (Reader.readAll limit text.toList).mapError fun e =>
    ⟨e.fault, text.toList.length - e.unread.length⟩

/-- Reads a rule. -/
def parse (text : String) : Except SyntaxError Rule := parseWithin (some maxDepth) text

end Rule

end TagLogic
