import TagLogic.Proofs.Rule.Step

/-!
# Whole readings

`Reads` puts steps one after the other. As each of them shrinks the size, the steps from
a state end (`exists_reads`): with the whole rule, or at a refusal. `finish` is the
reading from a state to its end, and goes along with every step (`finish_of_step`). What
comes of reading is told by where the steps end:

- `run_eq_ok_iff` — for one rule, with any text left unread behind it;
- `finish_eq_ok_iff`, `finish_eq_error_iff` — from any state;
- `parseWithin_eq_ok_iff`, `parseWithin_eq_error_iff` — for the public reader.

One rule is one call of the production `rule`, and the public reader is the operation
`parse`.
-/

namespace TagLogic

namespace Reader

variable {limit : Option Nat} {depth : Nat} {state next : State} {s taken rest : List Char}

/-! ## Steps one after the other -/

/-- The reader gets from the one state to the other by taking `taken` with `rest` behind it. -/
inductive Reads (limit : Option Nat) (depth : Nat) (start : State) :
    List Char → List Char → State → Prop
  | refl {rest : List Char} : Reads limit depth start [] rest start
  | tail {taken more rest : List Char} {state next : State} :
      Reads limit depth start taken (more ++ rest) state → Step limit depth state more rest next →
      Reads limit depth start (taken ++ more) rest next

theorem Reads.head {more : List Char} {last : State}
    (h : Step limit depth state more (taken ++ rest) next)
    (hreads : Reads limit depth next taken rest last) :
    Reads limit depth state (more ++ taken) rest last := by
  induction hreads with
  | refl => simpa using Reads.tail .refl (by simpa using h)
  | tail _ hstep ih =>
    rw [← List.append_assoc]
    exact .tail (ih (by simpa using h)) hstep

/-- **From any state the steps end**, with the whole rule or at a refusal. -/
theorem exists_reads (limit : Option Nat) (depth : Nat) (state : State) (s : List Char) :
    (∃ taken rest rule, s = taken ++ rest ∧
      Reads limit depth state taken rest (.done rule []) ∧ Blanks rest) ∨
    ∃ taken rest last stop, s = taken ++ rest ∧
      Reads limit depth state taken rest last ∧ Refuses limit depth last rest stop := by
  rcases next_cases limit depth state s with ⟨more, s', next, rfl, hstep⟩ | ⟨stop, hstop⟩ |
      ⟨rule, rfl, hs⟩
  · have hsmaller := hstep.decreases
    rcases exists_reads limit depth next s' with ⟨taken, rest, rule, rfl, hreads, hrest⟩ |
        ⟨taken, rest, last, stop, rfl, hreads, hstop⟩
    · exact Or.inl ⟨more ++ taken, rest, rule, by simp, .head hstep hreads, hrest⟩
    · exact Or.inr ⟨more ++ taken, rest, last, stop, by simp, .head hstep hreads, hstop⟩
  · exact Or.inr ⟨[], s, state, stop, rfl, .refl, hstop⟩
  · exact Or.inl ⟨[], s, rule, rfl, .refl, hs⟩
termination_by state.size s

/-! ## Reading one rule -/

theorem run_of_reads (h : Reads limit depth state taken rest next) :
    run limit depth state (taken ++ rest) = run limit depth next rest := by
  induction h with
  | refl => rfl
  | tail _ hstep ih => rw [List.append_assoc, ih, run_of_step hstep]

/-- **One rule is read exactly where the steps come to it with no frame open**, whatever they leave
unread. -/
theorem run_eq_ok_iff {rule : Rule} :
    run limit depth state s = .ok (rule, rest) ↔
      ∃ taken, s = taken ++ rest ∧ Reads limit depth state taken rest (.done rule []) := by
  constructor
  · intro h
    rcases exists_reads limit depth state s with ⟨taken, other, q, rfl, hreads, -⟩ |
        ⟨taken, other, last, stop, rfl, hreads, hstop⟩
    · rw [run_of_reads hreads, run] at h
      cases h
      exact ⟨taken, rfl, hreads⟩
    · -- With the whole rule read, it is only the public reader that refuses what is left over.
      by_cases hdone : ∃ q, last = .done q []
      · obtain ⟨q, rfl⟩ := hdone
        rw [run_of_reads hreads, run] at h
        cases h
        exact ⟨taken, rfl, hreads⟩
      · rw [run_of_reads hreads, run_of_refuses hstop fun q hq => hdone ⟨q, hq⟩] at h
        cases h
  · rintro ⟨taken, rfl, hreads⟩
    rw [run_of_reads hreads, run]

/-! ## Reading to the end -/

/-- Reads on to the end of a rule from any state; blanks may follow it, and nothing else. -/
def finish (limit : Option Nat) (depth : Nat) (state : State) (s : List Char) :
    Except Stop Rule :=
  match run limit depth state s with
  | .error e => .error e
  | .ok (rule, rest) =>
    match skipBlanks rest with
    | [] => .ok rule
    | c :: more => .error ⟨.trailing c, c :: more⟩

theorem finish_of_step (h : Step limit depth state taken rest next) :
    finish limit depth state (taken ++ rest) = finish limit depth next rest := by
  rw [finish, run_of_step h]
  rfl

/-- Where there is room, an opener is followed by what is inside. -/
theorem finish_opens {frames : List Frame} {before : List Char} {c : Char} {frame : Frame}
    (hbefore : Blanks before) (hc : Frame.opened? c = some frame)
    (hroom : Within limit (depth + frames.length + 1)) (s : List Char) :
    finish limit depth (.due frames) (before ++ c :: s) =
      finish limit depth (.due (frame :: frames)) s := by
  rw [← finish_of_step (.opens hbefore hc hroom), List.append_assoc]
  rfl

theorem finish_negates (rule : Rule) (frames : List Frame) (s : List Char) :
    finish limit depth (.done rule (.negation :: frames)) s =
      finish limit depth (.done (.not rule) frames) s :=
  finish_of_step .negates

theorem finish_separates {before : List Char} (hbefore : Blanks before) (rule : Rule)
    (kind : Group) (parts : List Rule) (frames : List Frame) (s : List Char) :
    finish limit depth (.done rule (.group kind parts :: frames)) (before ++ ',' :: s) =
      finish limit depth (.due (.group kind (rule :: parts) :: frames)) s := by
  rw [← finish_of_step (.separates hbefore), List.append_assoc]
  rfl

theorem finish_closes {before : List Char} (hbefore : Blanks before) (rule : Rule)
    (kind : Group) (parts : List Rule) (frames : List Frame) (s : List Char) :
    finish limit depth (.done rule (.group kind parts :: frames)) (before ++ kind.closer :: s) =
      finish limit depth (.done (.group kind (rule :: parts).reverse) frames) s := by
  rw [← finish_of_step (.closes hbefore), List.append_assoc]
  rfl

/-- After a rule, blanks in front of what follows do not count. -/
theorem finish_done_blanks {before : List Char} (hbefore : Blanks before) (s : List Char) :
    ∀ (frames : List Frame) (rule : Rule),
      finish limit depth (.done rule frames) (before ++ s) =
        finish limit depth (.done rule frames) s := by
  intro frames
  induction frames with
  | nil =>
    intro rule
    simp only [finish, run, skipBlanks_append hbefore]
  | cons frame frames ih =>
    intro rule
    cases frame with
    | negation =>
      rw [finish_negates, finish_negates, ih]
    | group kind parts =>
      have hclose := close_blanks hbefore rule kind parts frames s
      cases h : close rule (.group kind parts) frames s with
      | error stop =>
        rw [finish, finish, run_of_close_error h, run_of_close_error (hclose.trans h)]
      | ok next => rw [finish, finish, run_of_close h, run_of_close (hclose.trans h)]

theorem finish_of_reads (h : Reads limit depth state taken rest next) :
    finish limit depth state (taken ++ rest) = finish limit depth next rest := by
  rw [finish, run_of_reads h]
  rfl

theorem finish_of_refuses {stop : Stop} (h : Refuses limit depth state s stop) :
    finish limit depth state s = .error stop := by
  by_cases hdone : ∃ rule, state = .done rule []
  · obtain ⟨rule, rfl⟩ := hdone
    cases h with
    | trailing hbefore hc =>
      simp only [finish, run, skipBlanks_append hbefore, skipBlanks_cons hc]
  · rw [finish, run_of_refuses h fun rule hrule => hdone ⟨rule, hrule⟩]

theorem finish_of_blanks (hs : Blanks s) (rule : Rule) :
    finish limit depth (.done rule []) s = .ok rule := by
  simp only [finish, run, skipBlanks_blanks hs]

/-- **A reading succeeds exactly where the steps end with the whole rule.** -/
theorem finish_eq_ok_iff {rule : Rule} :
    finish limit depth state s = .ok rule ↔ ∃ taken rest, s = taken ++ rest ∧
      Reads limit depth state taken rest (.done rule []) ∧ Blanks rest := by
  constructor
  · intro h
    rcases exists_reads limit depth state s with ⟨taken, rest, other, rfl, hreads, hrest⟩ |
        ⟨taken, rest, last, stop, rfl, hreads, hstop⟩
    · rw [finish_of_reads hreads, finish_of_blanks hrest] at h
      cases h
      exact ⟨taken, rest, rfl, hreads, hrest⟩
    · rw [finish_of_reads hreads, finish_of_refuses hstop] at h
      cases h
  · intro h
    obtain ⟨taken, rest, rfl, hreads, hrest⟩ := h
    rw [finish_of_reads hreads, finish_of_blanks hrest]

/-- **A reading fails exactly where the steps end at a refusal.** -/
theorem finish_eq_error_iff {stop : Stop} :
    finish limit depth state s = .error stop ↔ ∃ taken rest last, s = taken ++ rest ∧
      Reads limit depth state taken rest last ∧ Refuses limit depth last rest stop := by
  constructor
  · intro h
    rcases exists_reads limit depth state s with ⟨taken, rest, rule, rfl, hreads, hrest⟩ |
        ⟨taken, rest, last, other, rfl, hreads, hstop⟩
    · rw [finish_of_reads hreads, finish_of_blanks hrest] at h
      cases h
    · rw [finish_of_reads hreads, finish_of_refuses hstop] at h
      cases h
      exact ⟨taken, rest, last, rfl, hreads, hstop⟩
  · intro h
    obtain ⟨taken, rest, last, rfl, hreads, hstop⟩ := h
    rw [finish_of_reads hreads, finish_of_refuses hstop]

end Reader

namespace Rule

open Reader (Reads Refuses Stop State)

/-- The public reader reads the text from its start, and the offset of a fault counts the characters
that were not left unread. -/
theorem parseWithin_eq_finish (limit : Option Nat) (text : String) :
    parseWithin limit text = (Reader.finish limit 0 (.due []) text.toList).mapError
      fun stop => ⟨stop.fault, text.toList.length - stop.unread.length⟩ := rfl

/-- The public reader accepts what is read from the start of the text. -/
theorem parseWithin_of_finish {limit : Option Nat} {text : String} {rule : Rule}
    (h : Reader.finish limit 0 (.due []) text.toList = .ok rule) :
    parseWithin limit text = .ok rule := by
  rw [parseWithin_eq_finish, h]
  rfl

theorem finish_of_parseWithin {limit : Option Nat} {text : String} {rule : Rule}
    (h : parseWithin limit text = .ok rule) :
    Reader.finish limit 0 (.due []) text.toList = .ok rule := by
  rw [parseWithin_eq_finish] at h
  cases hfinish : Reader.finish limit 0 (.due []) text.toList with
  | ok other =>
    rw [hfinish] at h
    cases h
    rfl
  | error stop =>
    rw [hfinish] at h
    cases h

/-- What the public reader accepts is where its steps end with the whole rule. -/
theorem parseWithin_eq_ok_iff {limit : Option Nat} {text : String} {rule : Rule} :
    parseWithin limit text = .ok rule ↔ ∃ taken rest, text.toList = taken ++ rest ∧
      Reads limit 0 (.due []) taken rest (.done rule []) ∧ Blanks rest :=
  ⟨fun h => Reader.finish_eq_ok_iff.mp (finish_of_parseWithin h),
    fun h => parseWithin_of_finish (Reader.finish_eq_ok_iff.mpr h)⟩

/-- What the public reader rejects is where its steps end at a refusal. -/
theorem parseWithin_eq_error_iff {limit : Option Nat} {text : String} {e : SyntaxError} :
    parseWithin limit text = .error e ↔ ∃ taken rest last stop, text.toList = taken ++ rest ∧
      Reads limit 0 (.due []) taken rest last ∧ Refuses limit 0 last rest stop ∧
      e = ⟨stop.fault, text.toList.length - stop.unread.length⟩ := by
  constructor
  · intro h
    rw [parseWithin_eq_finish] at h
    cases hfinish : Reader.finish limit 0 (.due []) text.toList with
    | ok rule =>
      rw [hfinish] at h
      cases h
    | error stop =>
      rw [hfinish] at h
      cases h
      obtain ⟨taken, rest, last, htext, hreads, hstop⟩ := Reader.finish_eq_error_iff.mp hfinish
      exact ⟨taken, rest, last, stop, htext, hreads, hstop, rfl⟩
  · intro h
    obtain ⟨taken, rest, last, stop, htext, hreads, hstop, he⟩ := h
    have hfinish := Reader.finish_eq_error_iff.mpr ⟨taken, rest, last, htext, hreads, hstop⟩
    rw [parseWithin_eq_finish, hfinish, he]
    rfl

end Rule

end TagLogic
