import TagLogic.Proofs.Rule.Token

/-!
# What the reader can do

The reader is a machine: it stands in a `State`, looks at the unread text, and either
goes on or stops at a fault. This module says once what each of these comes to, in terms
of the text alone, so nothing later has to open `begin`, `close`, `word` or `run`:

> `Step`: the reader takes `taken` and stands in `next`, where `rest` is left unread.
>
> `Refuses`: no step is possible, and this is the fault and where it shows.

- `begin_of_step`, `close_of_step`, `run_of_step`, and the same for a refusal — the machine
  does what these say;
- `next_cases` — and nothing else: at any text the reader steps, refuses, or is done with
  the whole rule and only blanks are left;
- `Step.decreases` — each step shrinks `State.size`.

`Step` keeps what is taken and what is left apart on purpose. The text left over enters a
step only through `Bounded`, by which a run of text knows that it is over; all other
steps would be taken whatever follows.

In terms of the productions, a step is taken inside of a call of `rule`, `group` or
`negation`, and a refusal is a call of `fail_with`.
-/

namespace TagLogic

/-- So many negations and groups may be open around each other. -/
def Within (limit : Option Nat) (n : Nat) : Prop := ∀ most ∈ limit, n ≤ most

theorem Within.mono {limit : Option Nat} {m n : Nat} (h : Within limit n) (hle : m ≤ n) :
    Within limit m := fun most hmost => Nat.le_trans hle (h most hmost)

theorem within_zero (limit : Option Nat) : Within limit 0 := fun most _ => Nat.zero_le most

theorem within_some {most n : Nat} : Within (some most) n ↔ n ≤ most := by
  simp [Within]

theorem within_max {limit : Option Nat} {m n : Nat} :
    Within limit (max m n) ↔ Within limit m ∧ Within limit n := by
  refine ⟨fun h => ⟨h.mono (Nat.le_max_left m n), h.mono (Nat.le_max_right m n)⟩, fun h => ?_⟩
  exact fun most hmost => Nat.max_le.mpr ⟨h.1 most hmost, h.2 most hmost⟩

/-- A frame is opened by the negation sign or by the opener of a group. -/
theorem Frame.opened?_eq_some_iff {c : Char} {frame : Frame} :
    Frame.opened? c = some frame ↔
      (c = '!' ∧ frame = .negation) ∨ ∃ kind : Group, c = kind.opener ∧ frame = .group kind [] := by
  constructor
  · intro h
    unfold Frame.opened? at h
    split at h
    next => exact Or.inl ⟨rfl, (Option.some.inj h).symm⟩
    next => exact Or.inr ⟨.all, rfl, (Option.some.inj h).symm⟩
    next => exact Or.inr ⟨.any, rfl, (Option.some.inj h).symm⟩
    next => exact absurd h (by simp)
  · intro h
    rcases h with ⟨rfl, rfl⟩ | ⟨kind, rfl, rfl⟩
    · rfl
    · cases kind <;> rfl

theorem isReserved_of_opened? {c : Char} {frame : Frame} (h : Frame.opened? c = some frame) :
    isReserved c = true := by
  rcases Frame.opened?_eq_some_iff.mp h with ⟨rfl, -⟩ | ⟨kind, rfl, -⟩
  · rfl
  · cases kind <;> rfl

theorem Group.isReserved_closer (kind : Group) : isReserved kind.closer = true := by
  cases kind <;> rfl

/-- A reserved character is a separator, a closer, an opener or the sign of a name. -/
theorem isReserved_cases {c : Char} (h : isReserved c = true) :
    c = ',' ∨ isCloser c = true ∨ (∃ frame, Frame.opened? c = some frame) ∨ c = '@' := by
  have hmem : c ∈ reserved := by simpa [isReserved] using h
  simp only [reserved, List.mem_cons, List.not_mem_nil, or_false] at hmem
  rcases hmem with rfl | rfl | rfl | rfl | rfl | rfl | rfl
  · exact Or.inl rfl
  · exact Or.inr (Or.inr (Or.inl ⟨_, rfl⟩))
  · exact Or.inr (Or.inl rfl)
  · exact Or.inr (Or.inr (Or.inl ⟨_, rfl⟩))
  · exact Or.inr (Or.inl rfl)
  · exact Or.inr (Or.inr (Or.inl ⟨_, rfl⟩))
  · exact Or.inr (Or.inr (Or.inr rfl))

theorem ne_comma_of_isCloser {c : Char} (h : isCloser c = true) : c ≠ ',' := by
  intro hc
  subst hc
  cases h

/-- What is no closer at all is not the closer of the kind. -/
theorem ne_closer_of_isCloser {c : Char} (h : isCloser c = false) (kind : Group) :
    c ≠ kind.closer := by
  intro hc
  rw [Group.isCloser_iff.mpr ⟨kind, hc⟩] at h
  cases h

/-- Separators and closers are reserved, but neither opens a frame or begins a name. -/
theorem of_separator_or_closer {c : Char} (h : c = ',' ∨ isCloser c = true) :
    isReserved c = true ∧ Frame.opened? c = none ∧ c ≠ '@' := by
  rcases h with rfl | h
  · decide
  · obtain ⟨kind, rfl⟩ := Group.isCloser_iff.mp h
    cases kind <;> decide

/-- What may stand in a token neither closes nor opens anything. -/
theorem of_not_isReserved {c : Char} (h : isReserved c = false) :
    isCloser c = false ∧ Frame.opened? c = none := by
  refine ⟨?_, ?_⟩
  · cases hc : isCloser c with
    | false => rfl
    | true => exact absurd rfl (ne_of_isReserved h (of_separator_or_closer (Or.inr hc)).1)
  · cases hc : Frame.opened? c with
    | none => rfl
    | some frame => exact absurd rfl (ne_of_isReserved h (isReserved_of_opened? hc))

namespace Reader

/-! ## Steps and refusals -/

/-- The reader takes `taken` with `rest` behind it, and then stands in the other state. -/
inductive Step (limit : Option Nat) (depth : Nat) :
    State → List Char → List Char → State → Prop
  | opens {frames : List Frame} {before rest : List Char} {c : Char} {frame : Frame} :
      Blanks before → Frame.opened? c = some frame → Within limit (depth + frames.length + 1) →
      Step limit depth (.due frames) (before ++ [c]) rest (.due (frame :: frames))
  | tags {frames : List Frame} {before text after rest : List Char} :
      Blanks before → IsToken text → Blanks after → Bounded rest →
      Step limit depth (.due frames) (before ++ (text ++ after)) rest
        (.done (.tagged (String.ofList text)) frames)
  | names {frames : List Frame} {before inner text after rest : List Char} :
      Blanks before → Blanks inner → IsToken text → Blanks after → Bounded rest →
      Step limit depth (.due frames) (before ++ '@' :: (inner ++ (text ++ after))) rest
        (.done (.named (String.ofList text)) frames)
  | negates {rule : Rule} {frames : List Frame} {rest : List Char} :
      Step limit depth (.done rule (.negation :: frames)) [] rest (.done (.not rule) frames)
  | separates {rule : Rule} {kind : Group} {parts : List Rule} {frames : List Frame}
      {before rest : List Char} : Blanks before →
      Step limit depth (.done rule (.group kind parts :: frames)) (before ++ [',']) rest
        (.due (.group kind (rule :: parts) :: frames))
  | closes {rule : Rule} {kind : Group} {parts : List Rule} {frames : List Frame}
      {before rest : List Char} : Blanks before →
      Step limit depth (.done rule (.group kind parts :: frames)) (before ++ [kind.closer]) rest
        (.done (.group kind (rule :: parts).reverse) frames)

/-- The reader stops in the state with this text unread. -/
inductive Refuses (limit : Option Nat) (depth : Nat) : State → List Char → Stop → Prop
  | ends {frames : List Frame} {before : List Char} : Blanks before →
      Refuses limit depth (.due frames) before ⟨noRuleAt frames none, []⟩
  | misplaced {frames : List Frame} {before rest : List Char} {c : Char} :
      Blanks before → (c = ',' ∨ isCloser c = true) →
      Refuses limit depth (.due frames) (before ++ c :: rest)
        ⟨noRuleAt frames (some c), c :: rest⟩
  | tooDeep {frames : List Frame} {before rest : List Char} {c : Char} {frame : Frame}
      {most : Nat} : Blanks before → Frame.opened? c = some frame → limit = some most →
      most ≤ depth + frames.length →
      Refuses limit depth (.due frames) (before ++ c :: rest) ⟨.tooDeep most, c :: rest⟩
  | noText {frames : List Frame} {before inner rest : List Char} :
      Blanks before → Blanks inner → Bounded rest →
      Refuses limit depth (.due frames) (before ++ '@' :: (inner ++ rest))
        ⟨.noText, inner ++ rest⟩
  | unclosed {rule : Rule} {kind : Group} {parts : List Rule} {frames : List Frame}
      {before : List Char} : Blanks before →
      Refuses limit depth (.done rule (.group kind parts :: frames)) before ⟨.unclosed kind, []⟩
  | wrongCloser {rule : Rule} {kind : Group} {parts : List Rule} {frames : List Frame}
      {before rest : List Char} {c : Char} :
      Blanks before → isCloser c = true → c ≠ kind.closer →
      Refuses limit depth (.done rule (.group kind parts :: frames)) (before ++ c :: rest)
        ⟨.wrongCloser kind c, c :: rest⟩
  | noSeparator {rule : Rule} {kind : Group} {parts : List Rule} {frames : List Frame}
      {before rest : List Char} {c : Char} :
      Blanks before → isBlank c = false → c ≠ ',' → isCloser c = false →
      Refuses limit depth (.done rule (.group kind parts :: frames)) (before ++ c :: rest)
        ⟨.noSeparator kind c, c :: rest⟩
  | trailing {rule : Rule} {before rest : List Char} {c : Char} :
      Blanks before → isBlank c = false →
      Refuses limit depth (.done rule []) (before ++ c :: rest) ⟨.trailing c, c :: rest⟩

variable {limit : Option Nat} {depth : Nat} {state next : State} {s taken rest : List Char}

/-- The reader lets a frame be opened exactly where one more is within the limit. -/
theorem filter_eq_none_iff {n : Nat} : limit.filter (· ≤ n) = none ↔ Within limit (n + 1) := by
  simp only [Within, Option.filter_eq_none_iff, decide_eq_true_eq, Nat.not_le]
  exact Iff.rfl

/-! ## The machine makes these steps -/

theorem run_of_begin {frames : List Frame} (h : begin limit depth frames s = .ok (next, rest)) :
    run limit depth (.due frames) s = run limit depth next rest := by
  rw [run]
  split
  next e he => rw [h] at he; cases he
  next he => rw [h] at he; cases he; rfl

theorem run_of_close {rule : Rule} {frame : Frame} {frames : List Frame}
    (h : close rule frame frames s = .ok (next, rest)) :
    run limit depth (.done rule (frame :: frames)) s = run limit depth next rest := by
  rw [run]
  split
  next e he => rw [h] at he; cases he
  next he => rw [h] at he; cases he; rfl

theorem run_of_begin_error {frames : List Frame} {stop : Stop}
    (h : begin limit depth frames s = .error stop) :
    run limit depth (.due frames) s = .error stop := by
  rw [run]
  split
  next e he => rw [h] at he; cases he; rfl
  next he => rw [h] at he; cases he

theorem run_of_close_error {rule : Rule} {frame : Frame} {frames : List Frame} {stop : Stop}
    (h : close rule frame frames s = .error stop) :
    run limit depth (.done rule (frame :: frames)) s = .error stop := by
  rw [run]
  split
  next e he => rw [h] at he; cases he; rfl
  next he => rw [h] at he; cases he

theorem begin_blanks {before : List Char} (hbefore : Blanks before) (frames : List Frame)
    (s : List Char) : begin limit depth frames (before ++ s) = begin limit depth frames s := by
  unfold begin
  rw [skipBlanks_append hbefore]

theorem close_blanks {before : List Char} (hbefore : Blanks before) (rule : Rule) (kind : Group)
    (parts : List Rule) (frames : List Frame) (s : List Char) :
    close rule (.group kind parts) frames (before ++ s) =
      close rule (.group kind parts) frames s := by
  simp only [close, skipBlanks_append hbefore]

/-- A character that is no blank is the first one. -/
theorem begin_cons {c : Char} (hc : isBlank c = false) (frames : List Frame) (s : List Char) :
    begin limit depth frames (c :: s) =
      match Frame.opened? c with
      | some frame =>
        match limit.filter (· ≤ depth + frames.length) with
        | some most => .error ⟨.tooDeep most, c :: s⟩
        | none => .ok (.due (frame :: frames), s)
      | none =>
        if c = '@' then (word s).map fun w => (.done (.named w.1) frames, w.2)
        else if isReserved c then .error ⟨noRuleAt frames (some c), c :: s⟩
        else (word (c :: s)).map fun w => (.done (.tagged w.1) frames, w.2) := by
  unfold begin
  generalize hshown : skipBlanks (c :: s) = shown
  rw [skipBlanks_cons hc] at hshown
  subst hshown
  rfl

/-- A character that is no blank decides how the group goes on. -/
theorem close_cons {c : Char} (hc : isBlank c = false) (rule : Rule) (kind : Group)
    (parts : List Rule) (frames : List Frame) (s : List Char) :
    close rule (.group kind parts) frames (c :: s) =
      if c = ',' then .ok (.due (.group kind (rule :: parts) :: frames), s)
      else if c = kind.closer then .ok (.done (.group kind (rule :: parts).reverse) frames, s)
      else if isCloser c then .error ⟨.wrongCloser kind c, c :: s⟩
      else .error ⟨.noSeparator kind c, c :: s⟩ := by
  simp only [close, skipBlanks_cons hc]

theorem begin_token {text : List Char} (htext : IsToken text) {after rest : List Char}
    (hafter : Blanks after) (hrest : Bounded rest) (frames : List Frame) :
    begin limit depth frames (text ++ (after ++ rest)) =
      .ok (.done (.tagged (String.ofList text)) frames, rest) := by
  have hword := word_token blanks_nil htext hafter hrest
  rw [List.nil_append, List.append_assoc] at hword
  cases text with
  | nil => exact absurd rfl htext.ne_nil
  | cons c text =>
    have hc : isReserved c = false := htext.free c List.mem_cons_self
    have hat : c ≠ '@' := ne_of_isReserved hc rfl
    rw [List.cons_append] at hword ⊢
    rw [begin_cons (htext.head c rfl), (of_not_isReserved hc).2, hword]
    simp only [hat, hc, if_false, Bool.false_eq_true]
    rfl

/-- Where a rule is due, a step is what `begin` does. -/
theorem begin_of_step {frames : List Frame} (h : Step limit depth (.due frames) taken rest next) :
    begin limit depth frames (taken ++ rest) = .ok (next, rest) := by
  cases h with
  | opens hbefore hc hroom =>
    rw [List.append_assoc, begin_blanks hbefore, List.singleton_append,
      begin_cons (isBlank_eq_false (isReserved_of_opened? hc)), hc, filter_eq_none_iff.mpr hroom]
  | tags hbefore htext hafter hrest =>
    rw [List.append_assoc, begin_blanks hbefore, List.append_assoc,
      begin_token htext hafter hrest]
  | names hbefore hinner htext hafter hrest =>
    rw [List.append_assoc, begin_blanks hbefore, List.cons_append, begin_cons rfl,
      word_token hinner htext hafter hrest]
    rfl

/-- Where a rule is done, a step is what `close` does. -/
theorem close_of_step {rule : Rule} {frame : Frame} {frames : List Frame}
    (h : Step limit depth (.done rule (frame :: frames)) taken rest next) :
    close rule frame frames (taken ++ rest) = .ok (next, rest) := by
  cases h with
  | negates => rfl
  | separates hbefore =>
    rw [List.append_assoc, close_blanks hbefore, List.singleton_append, close_cons rfl]
    rfl
  | @closes _ kind _ _ _ _ hbefore =>
    rw [List.append_assoc, close_blanks hbefore, List.singleton_append,
      close_cons (isBlank_eq_false kind.isReserved_closer), if_neg, if_pos rfl]
    cases kind <;> decide

/-- **A step of the reader is a step of the run.** -/
theorem run_of_step (h : Step limit depth state taken rest next) :
    run limit depth state (taken ++ rest) = run limit depth next rest := by
  cases state with
  | due frames => exact run_of_begin (begin_of_step h)
  | done rule frames =>
    cases frames with
    | nil => cases h
    | cons frame frames => exact run_of_close (close_of_step h)

/-- Where a rule is due, a refusal is the error of `begin`. -/
theorem begin_of_refuses {frames : List Frame} {stop : Stop}
    (h : Refuses limit depth (.due frames) s stop) :
    begin limit depth frames s = .error stop := by
  cases h with
  | ends hbefore =>
    unfold begin
    rw [skipBlanks_blanks hbefore]
  | misplaced hbefore hc =>
    obtain ⟨hreserved, hopened, hat⟩ := of_separator_or_closer hc
    rw [begin_blanks hbefore, begin_cons (isBlank_eq_false hreserved), hopened]
    simp only [hat, hreserved, if_true, if_false]
  | @tooDeep _ _ _ _ _ most hbefore hc hlimit hmost =>
    have hfilter : (some most).filter (· ≤ depth + frames.length) = some most := by
      simpa using hmost
    rw [begin_blanks hbefore, begin_cons (isBlank_eq_false (isReserved_of_opened? hc)), hc, hlimit,
      hfilter]
  | noText hbefore hinner hrest =>
    rw [begin_blanks hbefore, begin_cons rfl, word_blanks hinner hrest]
    rfl

/-- Where a rule is done, a refusal is the error of `close`. -/
theorem close_of_refuses {rule : Rule} {frame : Frame} {frames : List Frame} {stop : Stop}
    (h : Refuses limit depth (.done rule (frame :: frames)) s stop) :
    close rule frame frames s = .error stop := by
  cases h with
  | unclosed hbefore => simp only [close, skipBlanks_blanks hbefore]
  | @wrongCloser _ _ _ _ _ _ c hbefore hc hne =>
    obtain ⟨hreserved, -, -⟩ := of_separator_or_closer (Or.inr hc)
    rw [close_blanks hbefore, close_cons (isBlank_eq_false hreserved),
      if_neg (ne_comma_of_isCloser hc), if_neg hne, if_pos hc]
  | @noSeparator _ kind _ _ _ _ c hbefore hblank hcomma hc =>
    rw [close_blanks hbefore, close_cons hblank, if_neg hcomma,
      if_neg (ne_closer_of_isCloser hc kind), hc]
    rfl

/-- **Where the reader refuses, the run fails**, unless the whole rule had been read. -/
theorem run_of_refuses {stop : Stop} (h : Refuses limit depth state s stop)
    (hopen : ∀ rule, state ≠ .done rule []) : run limit depth state s = .error stop := by
  cases state with
  | due frames => exact run_of_begin_error (begin_of_refuses h)
  | done rule frames =>
    cases frames with
    | nil => exact absurd rfl (hopen rule)
    | cons frame frames => exact run_of_close_error (close_of_refuses h)

/-! ## It makes no others -/

/-- **At any text the reader steps, refuses, or has read the whole rule up to blanks.** -/
theorem next_cases (limit : Option Nat) (depth : Nat) (state : State) (s : List Char) :
    (∃ taken rest next, s = taken ++ rest ∧ Step limit depth state taken rest next) ∨
      (∃ stop, Refuses limit depth state s stop) ∨
      ∃ rule, state = .done rule [] ∧ Blanks s := by
  cases state with
  | due frames =>
    rcases blanks_or_first s with hs | ⟨before, c, rest, rfl, hbefore, hc⟩
    · exact Or.inr (Or.inl ⟨_, .ends hs⟩)
    cases hreserved : isReserved c with
    | true =>
      rcases isReserved_cases hreserved with h | h | ⟨frame, hframe⟩ | rfl
      · exact Or.inr (Or.inl ⟨_, .misplaced hbefore (Or.inl h)⟩)
      · exact Or.inr (Or.inl ⟨_, .misplaced hbefore (Or.inr h)⟩)
      · by_cases hroom : Within limit (depth + frames.length + 1)
        · exact Or.inl ⟨before ++ [c], rest, _, by simp, .opens hbefore hframe hroom⟩
        · obtain ⟨most, hlimit, hmost⟩ : ∃ most, limit = some most ∧
              most ≤ depth + frames.length := by
            simpa [Within, Nat.succ_le_iff] using hroom
          exact Or.inr (Or.inl ⟨_, .tooDeep hbefore hframe hlimit hmost⟩)
      · obtain ⟨run, rest, rfl, hrun, hrest⟩ := exists_run rest
        rcases exists_token_or_blanks hrun with hblank |
            ⟨inner, text, after, rfl, hinner, htext, hafter⟩
        · exact Or.inr (Or.inl ⟨_, .noText hbefore hblank hrest⟩)
        · exact Or.inl ⟨_, rest, _, by simp, .names hbefore hinner htext hafter hrest⟩
    | false =>
      obtain ⟨run, rest', heq, hrun, hrest⟩ := exists_run (c :: rest)
      rcases exists_token_or_blanks hrun with hblank |
          ⟨inner, text, after, rfl, hinner, htext, hafter⟩
      · -- The run is not blank, since it shows `c`.
        cases run with
        | nil =>
          have hbound := hrest c (by rw [← List.nil_append rest', ← heq]; rfl)
          rw [hreserved] at hbound
          cases hbound
        | cons d run =>
          cases heq
          have hshown := hblank c List.mem_cons_self
          rw [hc] at hshown
          cases hshown
      · refine Or.inl ⟨(before ++ inner) ++ (text ++ after), rest', _, ?_,
          .tags (hbefore.append hinner) htext hafter hrest⟩
        rw [heq]
        simp
  | done rule frames =>
    cases frames with
    | nil =>
      rcases blanks_or_first s with hs | ⟨before, c, rest, rfl, hbefore, hc⟩
      · exact Or.inr (Or.inr ⟨rule, rfl, hs⟩)
      · exact Or.inr (Or.inl ⟨_, .trailing hbefore hc⟩)
    | cons frame frames =>
      cases frame with
      | negation => exact Or.inl ⟨[], s, _, rfl, .negates⟩
      | group kind parts =>
        rcases blanks_or_first s with hs | ⟨before, c, rest, rfl, hbefore, hc⟩
        · exact Or.inr (Or.inl ⟨_, .unclosed hs⟩)
        by_cases hcomma : c = ','
        · subst hcomma
          exact Or.inl ⟨before ++ [','], rest, _, by simp, .separates hbefore⟩
        by_cases hcloser : c = kind.closer
        · subst hcloser
          exact Or.inl ⟨before ++ [kind.closer], rest, _, by simp, .closes hbefore⟩
        cases hother : isCloser c with
        | true => exact Or.inr (Or.inl ⟨_, .wrongCloser hbefore hother hcloser⟩)
        | false => exact Or.inr (Or.inl ⟨_, .noSeparator hbefore hc hcomma hother⟩)

/-- What `begin` does is a step. -/
theorem exists_step_of_begin {frames : List Frame}
    (h : begin limit depth frames s = .ok (next, rest)) :
    ∃ taken, s = taken ++ rest ∧ Step limit depth (.due frames) taken rest next := by
  rcases next_cases limit depth (.due frames) s with
      ⟨taken, rest', next', rfl, hstep⟩ | ⟨stop, hstop⟩ | ⟨rule, hdone, -⟩
  · rw [begin_of_step hstep] at h
    cases h
    exact ⟨taken, rfl, hstep⟩
  · rw [begin_of_refuses hstop] at h
    cases h
  · cases hdone

/-- What `close` does is a step. -/
theorem exists_step_of_close (limit : Option Nat) (depth : Nat) {rule : Rule} {frame : Frame}
    {frames : List Frame} (h : close rule frame frames s = .ok (next, rest)) :
    ∃ taken, s = taken ++ rest ∧
      Step limit depth (.done rule (frame :: frames)) taken rest next := by
  rcases next_cases limit depth (.done rule (frame :: frames)) s with
      ⟨taken, rest', next', rfl, hstep⟩ | ⟨stop, hstop⟩ | ⟨rule, hdone, -⟩
  · rw [close_of_step hstep] at h
    cases h
    exact ⟨taken, rfl, hstep⟩
  · rw [close_of_refuses hstop] at h
    cases h
  · cases hdone

theorem Step.decreases (h : Step limit depth state taken rest next) :
    next.size rest < state.size (taken ++ rest) := by
  cases state with
  | due frames => exact begin_decreases (begin_of_step h)
  | done rule frames =>
    cases frames with
    | nil => cases h
    | cons frame frames => exact close_decreases (close_of_step h)

end Reader

end TagLogic
