import TagLogic.Text.Pieces
import TagLogic.Catalog.LoadError

/-!
# The text of an error tells the error

A message quotes characters and patterns as they are, quotes, digits and brackets among them, so
nothing marks where the quotation ends. What is quoted is told from the words in front of it
instead. The opening of a fault's message, up to its quoted character or its number, never begins
the opening of a fault of another kind or about the other group; behind it stands one character or
one number, and then words that depend on the opening alone. The messages around that of a fault put
a number in front, which ends at the first colon, or words that differ in their first letter.

- `numbered_inj` — a number with a colon behind it is told from any text that follows;
- `Fault.openings_prefixFree` — no opening begins another.

> `errors_told_apart`: two errors of one type with the same message are the same error.

A message is the display form of an error; those of files that cannot be read are the system's and
are left out.
-/

namespace TagLogic

/-! ## Numbers -/

section Numbers

variable {m n : Nat}

theorem not_mem_repr {c : Char} (hc : c.isDigit = false) (n : Nat) : c ∉ (Nat.repr n).toList := by
  intro hmem
  rw [Nat.toList_repr] at hmem
  have hdigit := Nat.isDigit_of_mem_toDigits (by decide) (by decide) hmem
  rw [hc] at hdigit
  exact Bool.noConfusion hdigit

/-- Numbers are told by their digits. -/
@[simp] theorem repr_inj : Nat.repr m = Nat.repr n ↔ m = n := by
  refine ⟨fun h => ?_, congrArg Nat.repr⟩
  rw [← String.toList_inj, Nat.toList_repr, Nat.toList_repr] at h
  have hread : ∀ k, Nat.ofDigitChars 10 (Nat.toDigits 10 k) 0 = k := fun k =>
    Nat.ofDigitChars_toDigits (by decide) (Nat.le_refl 10)
  rw [← hread m, h, hread n]

/-- The number ends at the first colon, whatever is written behind it. -/
theorem cutAt_numbered (n : Nat) (s : String) :
    Text.cutAt ':' (Nat.repr n ++ (": " ++ s)).toList =
      ((Nat.repr n).toList, some (' ' :: s.toList)) := by
  have hmark : (": " : String).toList = [':', ' '] := by decide
  rw [String.toList_append, String.toList_append, hmark]
  exact Text.cutAt_append_cons (not_mem_repr (by decide : ':'.isDigit = false) n) _

theorem numbered_inj {front s t : String} :
    front ++ Nat.repr m ++ ": " ++ s = front ++ Nat.repr n ++ ": " ++ t ↔ m = n ∧ s = t := by
  constructor
  · intro h
    simp only [String.append_assoc, String.append_right_inj] at h
    have hcut := cutAt_numbered n t
    rw [← h, cutAt_numbered m s] at hcut
    simp only [Prod.mk.injEq, Option.some.injEq, List.cons.injEq, true_and, String.toList_inj,
      repr_inj] at hcut
    exact hcut
  · rintro ⟨rfl, rfl⟩
    rfl

end Numbers

/-! ## Faults of a rule -/

namespace Fault

variable {f g : Fault}

/-- The message up to the character or the number that it shows. -/
def opening : Fault → String
  | .noRule => "expected a rule, found end of input"
  | .strayMark _ => "unexpected character " ++ "'"
  | .noText => "expected a name or tag, found nothing"
  | .unclosed g => g.message ++ " is not closed"
  | .wrongCloser g _ => g.message ++ " closed by " ++ "'"
  | .emptyGroup g => g.message ++ " contains no rules"
  | .emptyClause => "empty rule between separators"
  | .noSeparator g _ =>
    "expected ',' or " ++ quoted (.singleton g.closer) ++ " in " ++ g.message ++ ", found " ++ "'"
  | .trailing _ => "unexpected " ++ "'"
  | .tooDeep _ => "rule nested deeper than "

/-- The message from the character or the number that it shows. -/
def remainder : Fault → String
  | .strayMark c => .singleton c ++ "'" ++ " at start of rule"
  | .wrongCloser g c => .singleton c ++ "'" ++ ", expected " ++ quoted (.singleton g.closer)
  | .noSeparator _ c => .singleton c ++ "'"
  | .trailing c => .singleton c ++ "'" ++ " after complete rule"
  | .tooDeep limit => Nat.repr limit ++ " levels"
  | _ => ""

theorem message_eq (f : Fault) : f.message = f.opening ++ f.remainder := by
  -- cut behind the quote that opens the quotation
  have hcut : ∀ (front back : String) (c : Char), front ++ quoted (.singleton c) ++ back =
      front ++ "'" ++ (.singleton c ++ "'" ++ back) := by
    intro front back c
    simp only [quoted, String.append_assoc]
  cases f with
  | noRule | noText | unclosed | emptyGroup | emptyClause => exact String.append_empty.symm
  | strayMark c => exact hcut "unexpected character " " at start of rule" c
  | wrongCloser g c =>
    exact (congrArg (· ++ quoted (.singleton g.closer))
      (hcut (g.message ++ " closed by ") ", expected " c)).trans (String.append_assoc ..)
  | noSeparator g c =>
    exact String.append_empty.symm.trans ((hcut _ "" c).trans (congrArg _ String.append_empty))
  | trailing c => exact hcut "unexpected " " after complete rule" c
  | tooDeep limit => exact String.append_assoc ..

/-- The fault with a blank or 0 for what it shows. -/
def bare : Fault → Fault
  | .strayMark _ => .strayMark ' '
  | .wrongCloser g _ => .wrongCloser g ' '
  | .noSeparator g _ => .noSeparator g ' '
  | .trailing _ => .trailing ' '
  | .tooDeep _ => .tooDeep 0
  | f => f

/-- One fault for each opening. -/
def bares : List Fault :=
  [.noRule, .strayMark ' ', .noText, .emptyClause, .trailing ' ', .tooDeep 0] ++
    [Group.all, Group.any].flatMap fun g =>
      [.unclosed g, .wrongCloser g ' ', .emptyGroup g, .noSeparator g ' ']

theorem bare_mem_bares (f : Fault) : f.bare ∈ bares := by
  cases f with
  | unclosed g | wrongCloser g | emptyGroup g | noSeparator g =>
    cases g <;> simp only [bare] <;> decide
  | _ => simp only [bare]; decide

theorem opening_bare (f : Fault) : f.bare.opening = f.opening := by
  cases f <;> rfl

/-- **No opening begins another.** -/
theorem openings_prefixFree :
    ∀ f ∈ bares, ∀ g ∈ bares, f.opening.toList <+: g.opening.toList → f = g := by
  decide +kernel

theorem bare_eq_of_begins (h : f.opening.toList <+: g.opening.toList) :
    f.bare = g.bare := by
  rw [← opening_bare f, ← opening_bare g] at h
  exact openings_prefixFree _ (bare_mem_bares f) _ (bare_mem_bares g) h

/-- What a fault shows stands in the remainder of its message. -/
theorem eq_of_bare (hbare : f.bare = g.bare) (h : f.remainder = g.remainder) : f = g := by
  cases f <;> cases g <;> simp_all [bare, remainder]

theorem message_inj : f.message = g.message ↔ f = g := by
  constructor
  · intro h
    rw [message_eq, message_eq] at h
    have hf : f.opening.toList <+: (g.opening ++ g.remainder).toList := by
      rw [← h, String.toList_append]
      exact List.prefix_append ..
    have hg : g.opening.toList <+: (g.opening ++ g.remainder).toList := by
      rw [String.toList_append]
      exact List.prefix_append ..
    have hbare : f.bare = g.bare := by
      rcases List.prefix_or_prefix_of_prefix hf hg with hfg | hgf
      · exact bare_eq_of_begins hfg
      · exact (bare_eq_of_begins hgf).symm
    have hopening : f.opening = g.opening := by rw [← opening_bare f, hbare, opening_bare]
    rw [hopening, String.append_right_inj] at h
    exact eq_of_bare hbare h
  · rintro rfl
    rfl

end Fault

/-! ## Errors around a fault -/

theorem SyntaxError.message_inj {e e' : SyntaxError} : e.message = e'.message ↔ e = e' := by
  unfold SyntaxError.message
  rw [numbered_inj, Fault.message_inj, and_comm]
  cases e
  cases e'
  simp only [SyntaxError.mk.injEq]

namespace FormatError

/-- The first letter of the message. -/
def initial : FormatError → Char
  | .emptyName => 'a'
  | .unbalancedBrackets _ => 'u'
  | .badRule _ => 'i'

theorem head?_message (e : FormatError) : e.message.toList.head? = some e.initial := by
  cases e with
  | emptyName => decide
  | unbalancedBrackets pattern =>
    unfold message
    rw [String.toList_append]
    rfl
  | badRule error =>
    unfold message
    rw [String.toList_append]
    rfl

theorem message_inj {e e' : FormatError} : e.message = e'.message ↔ e = e' := by
  constructor
  · intro h
    have hinitial : some e.initial = some e'.initial := by
      rw [← head?_message, ← head?_message, h]
    cases e with
    | emptyName =>
      cases e' with
      | emptyName => rfl
      | unbalancedBrackets | badRule => simp [initial] at hinitial
    | unbalancedBrackets pattern =>
      cases e' with
      | unbalancedBrackets pattern' =>
        unfold message quoted at h
        simp only [String.append_right_inj, String.append_left_inj] at h
        rw [h]
      | emptyName | badRule => simp [initial] at hinitial
    | badRule error =>
      cases e' with
      | badRule error' =>
        unfold message at h
        rw [String.append_right_inj, SyntaxError.message_inj] at h
        rw [h]
      | emptyName | unbalancedBrackets => simp [initial] at hinitial
  · rintro rfl
    rfl

end FormatError

theorem LoadError.line_message_inj {m n : Nat} {e e' : FormatError} :
    (line m e).message = (line n e').message ↔ m = n ∧ e = e' := by
  unfold message
  rw [numbered_inj, FormatError.message_inj]

/-- **Errors with the same message are the same**, whatever they quote: faults of a rule, faults
with their place, faults of a line, and those with the number of the line. -/
theorem errors_told_apart :
    (∀ f g : Fault, f.message = g.message ↔ f = g) ∧
      (∀ e e' : SyntaxError, e.message = e'.message ↔ e = e') ∧
      (∀ e e' : FormatError, e.message = e'.message ↔ e = e') ∧
      ∀ (m n : Nat) (e e' : FormatError),
        (LoadError.line m e).message = (LoadError.line n e').message ↔ m = n ∧ e = e' :=
  ⟨fun _ _ => Fault.message_inj, fun _ _ => SyntaxError.message_inj,
    fun _ _ => FormatError.message_inj, fun _ _ _ _ => LoadError.line_message_inj⟩

end TagLogic
