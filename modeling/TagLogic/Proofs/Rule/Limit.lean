import TagLogic.Proofs.Rule.Continuation
import TagLogic.Proofs.Rule.Writing

/-!
# What the nesting limit cuts

The reader without a limit opens frames as it goes; `openings` lists them in order, each
with the number of frames that are open around it (`mem_openings_iff`). With a limit the
reader does the same up to the first opening that has as many around it as the limit
allows, and fails there (`run_limit`). Frames that were closed again are open around
nothing, so they do not count.

> `parse_cuts`: the limit changes no outcome but into the fault of being too deep, and
> that at the first opening with the limit reached around it.

As to the trees, the limit cuts those that are higher than it and no others: what a
reader with any limit has read is within the limit (`within_of_finish`), and whatever is
within another limit is read with that one too (`finish_of_within`).

The limit is the one that the production `rule` tests before it opens anything.
-/

namespace TagLogic

namespace Reader

/-- A frame that is opened. -/
structure Opening where
  /-- How many frames are open around it. -/
  around : Nat
  /-- The text from its sign on. -/
  unread : List Char
  deriving DecidableEq, Repr

/-- How many characters of the text stand before the sign. -/
def Opening.offset (s : List Char) (o : Opening) : Nat := s.length - o.unread.length

/-- The frames that reading without a limit opens, in order. -/
def openings : State → List Char → List Opening
  | .done _ [], _ => []
  | .done rule (frame :: frames), s =>
    match _h : close rule frame frames s with
    | .error _ => []
    | .ok (state, s') => openings state s'
  | .due frames, s =>
    match _h : begin none 0 frames s with
    | .error _ => []
    | .ok (.due opened, s') => ⟨frames.length, skipBlanks s⟩ :: openings (.due opened) s'
    | .ok (.done rule frames, s') => openings (.done rule frames) s'
termination_by state s => state.size s
decreasing_by
  · exact close_decreases _h
  · exact begin_decreases _h
  · exact begin_decreases _h

/-! ## One step -/

variable {limit : Option Nat} {depth : Nat} {frames : List Frame} {s s' : List Char} {next : State}

/-- Where a rule is due, one frame is opened, or a rule is done in the same frames. -/
theorem begin_cases (h : begin limit depth frames s = .ok (next, s')) :
    (∃ frame, next = .due (frame :: frames)) ∨ ∃ rule, next = .done rule frames := by
  obtain ⟨taken, rfl, hstep⟩ := exists_step_of_begin h
  cases hstep with
  | opens => exact Or.inl ⟨_, rfl⟩
  | tags | names => exact Or.inr ⟨_, rfl⟩

/-- Where a rule is done, no frame is opened. -/
theorem length_frames_le_of_close {rule : Rule} {frame : Frame}
    (h : close rule frame frames s = .ok (next, s')) :
    next.frames.length ≤ (frame :: frames).length := by
  obtain ⟨taken, rfl, hstep⟩ := exists_step_of_close none 0 h
  cases hstep with
  | negates | closes => exact Nat.le_succ _
  | separates => exact Nat.le_refl _

/-! ## What is opened -/

theorem openings_of_close {rule : Rule} {frame : Frame}
    (h : close rule frame frames s = .ok (next, s')) :
    openings (.done rule (frame :: frames)) s = openings next s' := by
  rw [openings]
  split
  next e he => rw [h] at he; cases he
  next he => rw [h] at he; cases he; rfl

theorem openings_of_begin_due {opened : List Frame}
    (h : begin none 0 frames s = .ok (.due opened, s')) :
    openings (.due frames) s = ⟨frames.length, skipBlanks s⟩ :: openings (.due opened) s' := by
  rw [openings]
  split
  next e he => rw [h] at he; cases he
  next he => rw [h] at he; cases he; rfl
  next he => rw [h] at he; cases he

theorem openings_of_begin_done {rule : Rule} {frames' : List Frame}
    (h : begin none 0 frames s = .ok (.done rule frames', s')) :
    openings (.due frames) s = openings (.done rule frames') s' := by
  rw [openings]
  split
  next e he => rw [h] at he; cases he
  next he => rw [h] at he; cases he
  next he => rw [h] at he; cases he; rfl

/-- A step leaves what is still to be opened. -/
theorem openings_subset_of_step {state : State} {taken : List Char}
    (h : Step none 0 state taken s next) : openings next s ⊆ openings state (taken ++ s) := by
  cases state with
  | due frames =>
    cases next with
    | due opened =>
      rw [openings_of_begin_due (begin_of_step h)]
      exact List.subset_cons_self _ _
    | done rule frames' =>
      rw [openings_of_begin_done (begin_of_step h)]
      exact List.Subset.refl _
  | done rule frames =>
    cases frames with
    | nil => cases h
    | cons frame frames =>
      rw [openings_of_close (close_of_step h)]
      exact List.Subset.refl _

theorem openings_subset_of_reads {state : State} {taken : List Char}
    (h : Reads none 0 state taken s next) : openings next s ⊆ openings state (taken ++ s) := by
  induction h with
  | refl => exact List.Subset.refl _
  | tail _ hstep ih =>
    rw [List.append_assoc]
    exact List.Subset.trans (openings_subset_of_step hstep) ih

/-- **A frame is opened by each sign that the reader gets to where a rule is due**, with as many
frames around it as are open there. -/
theorem mem_openings_iff {state : State} {o : Opening} :
    o ∈ openings state s ↔ ∃ taken before c unread frames frame,
      s = taken ++ (before ++ c :: unread) ∧
      Reads none 0 state taken (before ++ c :: unread) (.due frames) ∧ Blanks before ∧
      Frame.opened? c = some frame ∧ o = ⟨frames.length, c :: unread⟩ := by
  constructor
  · intro ho
    fun_induction openings state s with
    | case1 | case2 | case4 => cases ho
    | case3 rule frame frames s state s' h ih =>
      obtain ⟨more, rfl, hstep⟩ := exists_step_of_close none 0 h
      obtain ⟨taken, before, c, unread, frames, frame, rfl, hreads, hsign⟩ := ih ho
      exact ⟨more ++ taken, before, c, unread, frames, frame, by simp, .head hstep hreads, hsign⟩
    | case5 frames s opened s' h ih =>
      obtain ⟨more, rfl, hstep⟩ := exists_step_of_begin h
      rcases List.mem_cons.mp ho with rfl | ho
      · cases hstep with
        | @opens _ before _ c frame hbefore hc _ =>
          have hsign : isBlank c = false := isBlank_eq_false (isReserved_of_opened? hc)
          rw [List.append_assoc, List.singleton_append, skipBlanks_append hbefore,
            skipBlanks_cons hsign]
          exact ⟨[], before, c, s', frames, frame, rfl, .refl, hbefore, hc, rfl⟩
      · obtain ⟨taken, before, c, unread, frames, frame, rfl, hreads, hsign⟩ := ih ho
        exact ⟨more ++ taken, before, c, unread, frames, frame, by simp, .head hstep hreads, hsign⟩
    | case6 frames s rule frames' s' h ih =>
      obtain ⟨more, rfl, hstep⟩ := exists_step_of_begin h
      obtain ⟨taken, before, c, unread, frames, frame, rfl, hreads, hsign⟩ := ih ho
      exact ⟨more ++ taken, before, c, unread, frames, frame, by simp, .head hstep hreads, hsign⟩
  · rintro ⟨taken, before, c, unread, frames, frame, rfl, hreads, hbefore, hc, rfl⟩
    have hsign : isBlank c = false := isBlank_eq_false (isReserved_of_opened? hc)
    have hopens : Step none 0 (.due frames) (before ++ [c]) unread (.due (frame :: frames)) :=
      .opens hbefore hc nofun
    have hopened := openings_of_begin_due (begin_of_step hopens)
    rw [List.append_assoc, List.singleton_append, skipBlanks_append hbefore, skipBlanks_cons hsign]
      at hopened
    refine openings_subset_of_reads hreads ?_
    rw [hopened]
    exact List.mem_cons_self

/-! ## One step with a limit -/

/-- A step with a limit is one without, unless it opens a frame with the limit reached around it. -/
theorem begin_limit (most : Nat) (frames : List Frame) (s : List Char) :
    begin (some most) 0 frames s =
      match begin none 0 frames s with
      | .ok (.due opened, s') =>
        if most ≤ frames.length then .error ⟨.tooDeep most, skipBlanks s⟩
        else .ok (.due opened, s')
      | outcome => outcome := by
  unfold begin
  split
  next => rfl
  next c rest heq =>
    split
    next frame _ =>
      by_cases hle : most ≤ frames.length
      · simp [hle, heq, Option.filter]
      · simp [hle, Option.filter]
    next =>
      split
      · cases word rest <;> rfl
      · split
        · rfl
        · cases word (c :: rest) <;> rfl

/-! ## The whole reading -/

/-- **With a limit the reader does the same up to the first opening with the limit reached around
it, and fails there.** -/
theorem run_limit {most : Nat} (state : State) (s : List Char)
    (hle : state.frames.length ≤ most) :
    run (some most) 0 state s =
      match (openings state s).find? (·.around = most) with
      | some o => .error ⟨.tooDeep most, o.unread⟩
      | none => run none 0 state s := by
  fun_induction openings state s with
  | case1 rule s => simp [run]
  | case2 rule frame frames s e h =>
    rw [run_of_close_error h, run_of_close_error h]
    rfl
  | case3 rule frame frames s state s' h ih =>
    rw [run_of_close h, run_of_close h]
    exact ih (Nat.le_trans (length_frames_le_of_close h) hle)
  | case4 frames s e h =>
    have hlimit := begin_limit most frames s
    simp only [h] at hlimit
    rw [run_of_begin_error hlimit, run_of_begin_error h]
    rfl
  | case5 frames s opened s' h ih =>
    have hlimit := begin_limit most frames s
    simp only [h] at hlimit
    obtain ⟨frame, hopened⟩ | ⟨rule, hdone⟩ := begin_cases h
    · -- Only here a frame is opened, so only here the limit makes a difference.
      cases hopened
      by_cases heq : frames.length = most
      · rw [if_pos (Nat.le_of_eq heq.symm)] at hlimit
        rw [run_of_begin_error hlimit]
        simp [heq]
      · have hlt : frames.length < most := Nat.lt_of_le_of_ne hle heq
        rw [if_neg (Nat.not_le.mpr hlt)] at hlimit
        rw [run_of_begin hlimit, run_of_begin h, ih hlt]
        simp [heq]
    · cases hdone
  | case6 frames s rule frames' s' h ih =>
    have hlimit := begin_limit most frames s
    simp only [h] at hlimit
    obtain ⟨frame, hopened⟩ | ⟨rule, hdone⟩ := begin_cases h
    · cases hopened
    · cases hdone
      rw [run_of_begin hlimit, run_of_begin h]
      exact ih hle

theorem finish_limit {most : Nat} {state : State} (hle : state.frames.length ≤ most)
    (s : List Char) :
    finish (some most) 0 state s =
      match (openings state s).find? (·.around = most) with
      | some o => .error ⟨.tooDeep most, o.unread⟩
      | none => finish none 0 state s := by
  unfold finish
  rw [run_limit state s hle]
  cases (openings state s).find? (·.around = most) <;> rfl

/-- **A fault is behind all frames that were opened.** -/
theorem openings_before_fault {state : State} {stop : Stop}
    (h : finish none 0 state s = .error stop) :
    ∀ o ∈ openings state s, stop.unread.length < o.unread.length := by
  intro o ho
  obtain ⟨taken, before, c, unread, frames, frame, rfl, hreads, hbefore, hc, rfl⟩ :=
    mem_openings_iff.mp ho
  have hroom : Within none (0 + frames.length + 1) := nofun
  rw [finish_of_reads hreads, finish_opens hbefore hc hroom] at h
  have hle := (length_unread_le h).1
  exact Nat.lt_succ_of_le hle

/-- Without a limit nothing is too deep. -/
theorem ne_tooDeep_of_refuses {state : State} {stop : Stop} (h : Refuses none depth state s stop)
    (most : Nat) : stop.fault ≠ .tooDeep most := by
  cases h with
  | ends | misplaced =>
    show noRuleAt _ _ ≠ _
    unfold noRuleAt
    split
    · exact nofun
    · split
      · exact nofun
      · split <;> exact nofun
    · exact nofun
    · exact nofun
  | tooDeep _ _ hlimit _ => cases hlimit
  | noText | unclosed | wrongCloser | noSeparator | trailing => exact nofun

/-! ## Heights -/

/-- What has been read is within the limit. -/
theorem within_of_finish {rule : Rule} (h : finish limit 0 (.due []) s = .ok rule) :
    Within limit rule.height := by
  obtain ⟨taken, rest, -, hreads, -⟩ := finish_eq_ok_iff.mp h
  obtain ⟨hheight, -⟩ := fits_reads hreads (within_zero limit)
  simpa using hheight

/-- **What is read with one limit is read with any other that it is within.** -/
theorem finish_of_within {other : Option Nat} {rule : Rule}
    (h : finish limit 0 (.due []) s = .ok rule) (hwithin : Within other rule.height) :
    finish other 0 (.due []) s = .ok rule :=
  finish_of_padded (padded_of_finish h) hwithin

end Reader

namespace Rule

open Reader (Opening openings)

/-- Reading with the limit is reading without it, unless a frame is opened with the limit reached
around it. -/
theorem parse_eq_of_openings (text : String) :
    parse text = match (openings (.due []) text.toList).find? (·.around = maxDepth) with
      | some o => .error ⟨.tooDeep maxDepth, o.offset text.toList⟩
      | none => parseWithin none text := by
  have hstart : (Reader.State.due []).frames.length ≤ maxDepth := Nat.zero_le maxDepth
  rw [parse, parseWithin_eq_finish, Reader.finish_limit hstart]
  cases (openings (.due []) text.toList).find? (·.around = maxDepth) <;> rfl

/-- The limit leaves the rules within it alone. -/
theorem parse_of_within {text : String} {rule : Rule} (h : parseWithin none text = .ok rule)
    (hle : rule.height ≤ maxDepth) : parse text = .ok rule := by
  exact parseWithin_of_finish
    (Reader.finish_of_within (finish_of_parseWithin h) (within_some.mpr hle))

/-- An error without the limit is behind the first opening with the limit reached around it. -/
theorem offset_lt_of_openings {text : String} {e : SyntaxError} {o : Opening}
    (h : parseWithin none text = .error e)
    (ho : (openings (.due []) text.toList).find? (·.around = maxDepth) = some o) :
    o.offset text.toList < e.offset := by
  have hstart : (Reader.State.due []).frames.length ≤ maxDepth := Nat.zero_le maxDepth
  have hcut := Reader.finish_limit hstart text.toList
  rw [ho] at hcut
  obtain ⟨taken, rest, last, stop, htext, hreads, hstop, rfl⟩ := parseWithin_eq_error_iff.mp h
  have hfault := Reader.finish_eq_error_iff.mpr ⟨taken, rest, last, htext, hreads, hstop⟩
  have hlt := Reader.openings_before_fault hfault o (List.mem_of_find?_eq_some ho)
  have hle : o.unread.length ≤ text.toList.length := (Reader.length_unread_le hcut).1
  show text.toList.length - o.unread.length < text.toList.length - stop.unread.length
  omega

theorem parseWithin_none_ne_tooDeep (text : String) (most offset : Nat) :
    parseWithin none text ≠ .error ⟨.tooDeep most, offset⟩ := by
  intro h
  obtain ⟨_, _, _, stop, -, -, hstop, heq⟩ := parseWithin_eq_error_iff.mp h
  exact Reader.ne_tooDeep_of_refuses hstop most (congrArg SyntaxError.fault heq).symm

/-- **The limit changes no outcome but into the fault of being too deep**, and that exactly where
reading without it opens a frame with the limit reached around it, at the first such frame. -/
theorem parse_cuts (text : String) :
    (∀ rule, parseWithin none text = .ok rule →
      (rule.height ≤ maxDepth → parse text = .ok rule) ∧
      (maxDepth < rule.height →
        ∃ offset, parse text = .error ⟨.tooDeep maxDepth, offset⟩)) ∧
    (∀ e, parseWithin none text = .error e →
      parse text = .error e ∨
        ∃ offset < e.offset, parse text = .error ⟨.tooDeep maxDepth, offset⟩) ∧
    ∀ most offset, parse text = .error ⟨.tooDeep most, offset⟩ ↔
      most = maxDepth ∧
        ((openings (.due []) text.toList).find? (·.around = maxDepth)).map
          (·.offset text.toList) = some offset := by
  have hparse := parse_eq_of_openings text
  cases ho : (openings (.due []) text.toList).find? (·.around = maxDepth) with
  | some o =>
    rw [ho] at hparse
    refine ⟨fun rule hrule => ⟨parse_of_within hrule, fun _ => ⟨_, hparse⟩⟩,
      fun e he => Or.inr ⟨_, offset_lt_of_openings he ho, hparse⟩, fun most offset => ?_⟩
    rw [hparse]
    simp [eq_comm]
  | none =>
    rw [ho] at hparse
    refine ⟨fun rule hrule => ⟨parse_of_within hrule, fun hlt => ?_⟩,
      fun e he => Or.inl (hparse.trans he), fun most offset => ?_⟩
    · -- What was read with the limit is within it.
      have hwithin := Reader.within_of_finish (finish_of_parseWithin (hparse.trans hrule))
      exact absurd (hwithin maxDepth rfl) (Nat.not_le.mpr hlt)
    · rw [hparse]
      simpa using parseWithin_none_ne_tooDeep text most offset

/-- A group that was closed is open around nothing, and a negation ends with its rule. -/
example : (openings (.due []) "(!a, (b), !(c))".toList).map
    (fun o => (o.around, o.offset "(!a, (b), !(c))".toList)) =
      [(0, 0), (1, 1), (1, 5), (1, 10), (2, 11)] := by
  with_unfolding_all rfl

end Rule

end TagLogic
