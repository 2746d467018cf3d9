import TagLogic.Proofs.Rule.Reading

/-!
# Why a text is rejected

The fault of a rejected text can be read off the text: it takes the last mark before the
place of the fault (`lastMark`), the innermost group still open there (`openGroups`), and
the character that stands there. `faultAt` is the table. It knows nothing of the reader;
what it has in place of frames is a `Stand`, which is all that a mark tells about what
may follow it.

> `parse_error_fault`: every rejection is the one in the table at its offset.

Two facts carry it. Along the steps of the reader the text taken so far keeps `Tracing`
the state: its last mark tells whether a rule is due and where, and its open groups are
those of the frames (`tracing_step`). And at a refusal the table has the fault that the
reader found (`foretold_of_refuses`).

The faults in the table are those that the productions raise, `trailing` being that of
`rule_text`; the offset is the one that `parse` returns.
-/

namespace TagLogic

/-! ## What a text shows -/

/-- The last character of the text that is no blank. -/
def lastMark (s : List Char) : Option Char := (s.filter (!isBlank ·)).getLast?

/-- The open groups behind one more character. -/
def groupsAfter (groups : List Group) (c : Char) : List Group :=
  if c = Group.all.opener then .all :: groups
  else if c = Group.any.opener then .any :: groups
  else if isCloser c then groups.tail
  else groups

/-- The groups that the text opens and does not close, the innermost first. -/
def openGroups (s : List Char) : List Group := s.foldl groupsAfter []

/-- Where a place is, by the last mark before it. -/
inductive Stand where
  /-- Behind the sign of a name. -/
  | inName
  /-- At the start, or behind a negation sign. -/
  | atRule
  /-- Behind the opener of a group. -/
  | atFirst
  /-- Behind a separator. -/
  | atNext
  /-- Behind text or a closer. -/
  | atEnd
  deriving DecidableEq, Repr

/-- Where a place with this last mark before it is. -/
def Stand.ofMark : Option Char → Stand
  | none => .atRule
  | some c =>
    if c = '@' then .inName
    else if c = '!' then .atRule
    else if c = Group.all.opener ∨ c = Group.any.opener then .atFirst
    else if c = ',' then .atNext
    else .atEnd

def opensFrame (c : Char) : Bool := c == '!' || c == '(' || c == '['

/-- The fault at a place, by its stand, the innermost open group and the character there, if
there is a fault. -/
def faultAt (most : Nat) : Stand → Option Group → Option Char → Option Fault
  | .inName, _, _ => some .noText
  | .atRule, _, none => some .noRule
  | .atRule, _, some c =>
    if opensFrame c then some (.tooDeep most)
    else if c = ',' ∨ isCloser c then some (.strayMark c)
    else none
  | .atFirst, some g, none => some (.unclosed g)
  | .atFirst, some g, some c =>
    if opensFrame c then some (.tooDeep most)
    else if c = ',' then some .emptyClause
    else if c = g.closer then some (.emptyGroup g)
    else if isCloser c then some (.wrongCloser g c)
    else none
  | .atNext, some g, none => some (.unclosed g)
  | .atNext, some _, some c =>
    if opensFrame c then some (.tooDeep most)
    else if c = ',' ∨ isCloser c then some .emptyClause
    else none
  -- An opener or a separator is always inside a group.
  | .atFirst, none, _ => none
  | .atNext, none, _ => none
  | .atEnd, some g, none => some (.unclosed g)
  | .atEnd, some g, some c =>
    if c = ',' ∨ c = g.closer then none
    else if isCloser c then some (.wrongCloser g c)
    else some (.noSeparator g c)
  | .atEnd, none, c => c.map .trailing

/-! ## Reading on -/

theorem lastMark_append (s t : List Char) : lastMark (s ++ t) = (lastMark t).or (lastMark s) := by
  rw [lastMark, List.filter_append, List.getLast?_append]
  rfl

theorem lastMark_blanks {s : List Char} (h : Blanks s) : lastMark s = none := by
  have hnil : s.filter (!isBlank ·) = [] := by
    refine List.filter_eq_nil_iff.mpr fun c hc => ?_
    rw [h c hc]
    exact Bool.false_ne_true
  rw [lastMark, hnil]
  rfl

theorem lastMark_append_blanks (s : List Char) {t : List Char} (h : Blanks t) :
    lastMark (s ++ t) = lastMark s := by
  rw [lastMark_append, lastMark_blanks h]
  rfl

theorem lastMark_concat {c : Char} (h : isBlank c = false) (s : List Char) :
    lastMark (s ++ [c]) = some c := by
  have hc : lastMark [c] = some c := by simp [lastMark, h]
  rw [lastMark_append, hc]
  rfl

/-- The last mark behind a token is its last character. -/
theorem lastMark_append_token (s : List Char) {text : List Char} (h : IsToken text) :
    ∃ c, isReserved c = false ∧ lastMark (s ++ text) = some c := by
  rcases List.eq_nil_or_concat text with hnil | ⟨front, c, heq⟩
  · exact absurd hnil h.ne_nil
  subst heq
  have hblank : isBlank c = false := h.last c (by simp)
  refine ⟨c, h.free c (by simp), ?_⟩
  rw [List.concat_eq_append, ← List.append_assoc, lastMark_concat hblank]

theorem openGroups_append (s t : List Char) :
    openGroups (s ++ t) = t.foldl groupsAfter (openGroups s) := List.foldl_append

/-- Text without reserved characters opens and closes nothing. -/
theorem openGroups_append_free (s : List Char) {t : List Char}
    (h : ∀ c ∈ t, isReserved c = false) : openGroups (s ++ t) = openGroups s := by
  rw [openGroups_append]
  generalize openGroups s = groups
  induction t with
  | nil => rfl
  | cons c t ih =>
    have hc := h c List.mem_cons_self
    have hstay : groupsAfter groups c = groups := by
      have hall : c ≠ Group.all.opener := ne_of_isReserved hc rfl
      have hany : c ≠ Group.any.opener := ne_of_isReserved hc rfl
      rw [groupsAfter, if_neg hall, if_neg hany, (of_not_isReserved hc).1]
      rfl
    rw [List.foldl_cons, hstay]
    exact ih fun d hd => h d (List.mem_cons_of_mem c hd)

namespace Reader

variable {limit : Option Nat} {depth : Nat}

/-- The kinds of the open groups, the innermost first. -/
def groupsOf : List Frame → List Group
  | [] => []
  | .negation :: frames => groupsOf frames
  | .group kind _ :: frames => kind :: groupsOf frames

/-- Where the reader stands, so far as it shows in the text. -/
def State.stand : State → Stand
  | .due [] => .atRule
  | .due (.negation :: _) => .atRule
  | .due (.group _ [] :: _) => .atFirst
  | .due (.group _ (_ :: _) :: _) => .atNext
  | .done _ _ => .atEnd

/-- The text shows where the reader stands. -/
structure Tracing (taken : List Char) (state : State) : Prop where
  stand : Stand.ofMark (lastMark taken) = state.stand
  groups : openGroups taken = groupsOf state.frames

theorem Tracing.append_blanks {taken before : List Char} {state : State}
    (h : Tracing taken state) (hbefore : Blanks before) : Tracing (taken ++ before) state := by
  refine ⟨?_, ?_⟩
  · rw [lastMark_append_blanks taken hbefore]
    exact h.stand
  · rw [openGroups_append_free taken hbefore.free]
    exact h.groups

/-- Behind text that is no mark a rule is done. -/
theorem ofMark_eq_atEnd {c : Char} (h : isReserved c = false) : Stand.ofMark (some c) = .atEnd := by
  have hat : c ≠ '@' := ne_of_isReserved h rfl
  have hnot : c ≠ '!' := ne_of_isReserved h rfl
  have hall : c ≠ Group.all.opener := ne_of_isReserved h rfl
  have hany : c ≠ Group.any.opener := ne_of_isReserved h rfl
  have hcomma : c ≠ ',' := ne_of_isReserved h rfl
  simp [Stand.ofMark, hat, hnot, hall, hany, hcomma]

/-- A token leaves a rule done inside the same groups. -/
theorem Tracing.token {taken text after : List Char} {rule : Rule} {frames : List Frame}
    (hgroups : openGroups taken = groupsOf frames) (htext : IsToken text) (hafter : Blanks after) :
    Tracing (taken ++ (text ++ after)) (.done rule frames) := by
  rw [← List.append_assoc]
  refine Tracing.append_blanks ⟨?_, ?_⟩ hafter
  · obtain ⟨c, hc, hlast⟩ := lastMark_append_token taken htext
    rw [hlast, ofMark_eq_atEnd hc]
    rfl
  · rw [openGroups_append_free taken htext.free]
    exact hgroups

/-- **Each step keeps the text tracing the state.** -/
theorem tracing_step {state next : State} {taken more rest : List Char}
    (h : Step limit depth state more rest next) (htracing : Tracing taken state) :
    Tracing (taken ++ more) next := by
  cases h with
  | opens hbefore hc _ =>
    have hblank := isBlank_eq_false (isReserved_of_opened? hc)
    have hgroups := (htracing.append_blanks hbefore).groups
    rw [← List.append_assoc]
    rcases Frame.opened?_eq_some_iff.mp hc with ⟨rfl, rfl⟩ | ⟨kind, rfl, rfl⟩
    · refine ⟨by rw [lastMark_concat hblank]; rfl, ?_⟩
      rw [openGroups_append, hgroups]
      rfl
    · refine ⟨by rw [lastMark_concat hblank]; cases kind <;> rfl, ?_⟩
      rw [openGroups_append, hgroups]
      cases kind <;> rfl
  | tags hbefore htext hafter _ =>
    rw [← List.append_assoc]
    exact .token (htracing.append_blanks hbefore).groups htext hafter
  | @names frames before inner text after _ hbefore hinner htext hafter _ =>
    have hgroups : openGroups (taken ++ before ++ ['@'] ++ inner) = groupsOf frames := by
      rw [openGroups_append_free _ hinner.free, openGroups_append,
        (htracing.append_blanks hbefore).groups]
      rfl
    have heq : taken ++ (before ++ '@' :: (inner ++ (text ++ after))) =
        taken ++ before ++ ['@'] ++ inner ++ (text ++ after) := by simp
    rw [heq]
    exact .token hgroups htext hafter
  | negates =>
    rw [List.append_nil]
    exact ⟨htracing.stand, htracing.groups⟩
  | separates hbefore =>
    rw [← List.append_assoc]
    refine ⟨by rw [lastMark_concat rfl]; rfl, ?_⟩
    rw [openGroups_append, (htracing.append_blanks hbefore).groups]
    rfl
  | @closes _ kind _ _ _ _ hbefore =>
    have hblank := isBlank_eq_false kind.isReserved_closer
    rw [← List.append_assoc]
    refine ⟨by rw [lastMark_concat hblank]; cases kind <;> rfl, ?_⟩
    rw [openGroups_append, (htracing.append_blanks hbefore).groups]
    cases kind <;> rfl

/-- **What has been taken traces the state it led to.** -/
theorem tracing_reads {state : State} {taken rest : List Char}
    (h : Reads limit depth (.due []) taken rest state) : Tracing taken state := by
  induction h with
  | refl => exact ⟨rfl, rfl⟩
  | tail _ hstep ih => exact tracing_step hstep ih

/-! ## Refusals -/

/-- Where the text ends before a rule, the table has what the reader says. -/
theorem faultAt_due_none (most : Nat) (frames : List Frame) :
    faultAt most (State.due frames).stand (groupsOf frames).head? none =
      some (noRuleAt frames none) := by
  cases frames with
  | nil => rfl
  | cons frame frames =>
    cases frame with
    | negation => rfl
    | group kind parts => cases parts <;> rfl

/-- Where a separator or a closer stands in place of a rule, the table has what the reader says. -/
theorem faultAt_due_some (most : Nat) (frames : List Frame) {c : Char}
    (hc : c = ',' ∨ isCloser c = true) :
    faultAt most (State.due frames).stand (groupsOf frames).head? (some c) =
      some (noRuleAt frames (some c)) := by
  rcases hc with rfl | hc
  · cases frames with
    | nil => rfl
    | cons frame frames =>
      cases frame with
      | negation => rfl
      | group kind parts => cases parts <;> rfl
  · obtain ⟨closed, rfl⟩ := Group.isCloser_iff.mp hc
    cases frames with
    | nil => cases closed <;> rfl
    | cons frame frames =>
      cases frame with
      | negation => cases closed <;> rfl
      | group kind parts => cases parts <;> cases kind <;> cases closed <;> rfl

/-- Where the opener of a frame stands in place of a rule, the table has the limit at fault. -/
theorem faultAt_due_opener (most : Nat) (frames : List Frame) {c : Char} {frame : Frame}
    (hc : Frame.opened? c = some frame) :
    faultAt most (State.due frames).stand (groupsOf frames).head? (some c) =
      some (.tooDeep most) := by
  have hopens : opensFrame c = true := by
    rcases Frame.opened?_eq_some_iff.mp hc with ⟨rfl, -⟩ | ⟨kind, rfl, -⟩
    · rfl
    · cases kind <;> rfl
  cases frames with
  | nil => exact if_pos hopens
  | cons outer frames =>
    cases outer with
    | negation => exact if_pos hopens
    | group kind parts =>
      cases parts with
      | nil => exact if_pos hopens
      | cons part parts => exact if_pos hopens

/-- No state of the reader is behind the sign of a name. -/
theorem State.stand_ne_inName (state : State) : state.stand ≠ .inName := by
  cases state with
  | done rule frames => exact fun h => nomatch h
  | due frames =>
    cases frames with
    | nil => exact fun h => nomatch h
    | cons frame frames =>
      cases frame with
      | negation => exact fun h => nomatch h
      | group kind parts => cases parts <;> exact fun h => nomatch h

/-- The table has the fault at the place between the texts, and if the last mark is the sign of a
name, it is right there. -/
structure Foretold (most : Nat) (before unread : List Char) (fault : Fault) : Prop where
  table : faultAt most (Stand.ofMark (lastMark before)) (openGroups before).head? unread.head? =
    some fault
  sign : lastMark before = some '@' → before.getLast? = some '@'

/-- Behind the blanks after what has been taken, the table is to be asked for the state. -/
theorem Tracing.foretold {most : Nat} {state : State} {taken before unread : List Char}
    {fault : Fault} (h : Tracing taken state) (hbefore : Blanks before)
    (hfault : faultAt most state.stand (groupsOf state.frames).head? unread.head? = some fault) :
    Foretold most (taken ++ before) unread fault := by
  obtain ⟨hstand, hgroups⟩ := h.append_blanks hbefore
  refine ⟨?_, ?_⟩
  · rw [hstand, hgroups]
    exact hfault
  · intro hmark
    rw [hmark] at hstand
    exact absurd hstand.symm state.stand_ne_inName

/-- **At a refusal the table has the fault that the reader found.** -/
theorem foretold_of_refuses {most : Nat} {state : State} {taken rest : List Char} {stop : Stop}
    (h : Refuses (some most) depth state rest stop) (htracing : Tracing taken state) :
    ∃ before, rest = before ++ stop.unread ∧
      Foretold most (taken ++ before) stop.unread stop.fault := by
  cases h with
  | @ends frames _ hrest =>
    have hfault := faultAt_due_none most frames
    exact ⟨rest, (List.append_nil rest).symm, htracing.foretold hrest hfault⟩
  | @misplaced frames before _ _ hbefore hc =>
    have hfault := faultAt_due_some most frames hc
    exact ⟨before, rfl, htracing.foretold hbefore hfault⟩
  | @tooDeep frames before _ _ _ _ hbefore hc hlimit _ =>
    cases hlimit
    have hfault := faultAt_due_opener most frames hc
    exact ⟨before, rfl, htracing.foretold hbefore hfault⟩
  | @noText frames before inner rest hbefore hinner hrest =>
    -- The place is behind the sign and before the blanks, so the sign is what stands before it.
    have hsign : taken ++ (before ++ ['@']) = taken ++ before ++ ['@'] := by simp
    refine ⟨before ++ ['@'], by simp, ⟨?_, fun _ => by simp⟩⟩
    rw [hsign, lastMark_concat rfl]
    rfl
  | @unclosed _ kind _ frames _ hrest =>
    exact ⟨rest, (List.append_nil rest).symm, htracing.foretold hrest rfl⟩
  | @wrongCloser _ kind _ _ before _ c hbefore hc hne =>
    refine ⟨before, rfl, htracing.foretold hbefore ?_⟩
    show (if c = ',' ∨ c = kind.closer then none else if isCloser c then _ else _) = _
    rw [if_neg (not_or.mpr ⟨ne_comma_of_isCloser hc, hne⟩), if_pos hc]
  | @noSeparator _ kind _ _ before _ c hbefore _ hcomma hc =>
    refine ⟨before, rfl, htracing.foretold hbefore ?_⟩
    show (if c = ',' ∨ c = kind.closer then none else if isCloser c then _ else _) = _
    rw [if_neg (not_or.mpr ⟨hcomma, ne_closer_of_isCloser hc kind⟩), hc]
    rfl
  | @trailing _ before _ _ hbefore _ => exact ⟨before, rfl, htracing.foretold hbefore rfl⟩

end Reader

namespace Rule

open Reader (Stop)

/-- **Every rejection is the one in the table at its offset**, and a name that is missing is missed
right behind its sign. -/
theorem parse_error_fault {text : String} {e : SyntaxError} (h : parse text = .error e) :
    e.offset ≤ text.toList.length ∧
      faultAt maxDepth (Stand.ofMark (lastMark (text.toList.take e.offset)))
        (openGroups (text.toList.take e.offset)).head? text.toList[e.offset]? = some e.fault ∧
      (lastMark (text.toList.take e.offset) = some '@' →
        (text.toList.take e.offset).getLast? = some '@') := by
  obtain ⟨taken, rest, state, stop, htext, hreads, hstop, rfl⟩ := parseWithin_eq_error_iff.mp h
  obtain ⟨before, rfl, hfault, hsign⟩ :=
    Reader.foretold_of_refuses hstop (Reader.tracing_reads hreads)
  have hsplit : text.toList = (taken ++ before) ++ stop.unread := by
    rw [htext, List.append_assoc]
  have hoffset : text.toList.length - stop.unread.length = (taken ++ before).length := by
    rw [hsplit, List.length_append]
    omega
  have hnext : text.toList[(taken ++ before).length]? = stop.unread.head? := by
    rw [hsplit, List.getElem?_append_right (Nat.le_refl _), Nat.sub_self, List.head?_eq_getElem?]
  have htake : text.toList.take (taken ++ before).length = taken ++ before := by
    rw [hsplit, List.take_left]
  refine ⟨Nat.sub_le _ _, ?_, ?_⟩
  · show faultAt _ _ _ text.toList[text.toList.length - stop.unread.length]? = _
    rw [hoffset, hnext, htake]
    exact hfault
  · show lastMark (text.toList.take (text.toList.length - stop.unread.length)) = _ → _
    rw [hoffset, htake]
    exact hsign

/-- Behind the last part of the inner group, with a closed group before it. -/
theorem parse_error_fault_wrongCloser :
    parse "((a), [b , !c)" = .error ⟨.wrongCloser .any ')', 13⟩ ∧
      13 ≤ "((a), [b , !c)".toList.length ∧
      faultAt maxDepth (Stand.ofMark (some 'c')) (some .any) (some ')') =
        some (.wrongCloser .any ')') := by
  have hrejected : parse "((a), [b , !c)" = .error ⟨.wrongCloser .any ')', 13⟩ := by
    with_unfolding_all rfl
  obtain ⟨hoffset, hfault, -⟩ := parse_error_fault hrejected
  exact ⟨hrejected, hoffset, hfault⟩

end Rule

end TagLogic
