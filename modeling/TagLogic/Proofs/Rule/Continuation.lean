import TagLogic.Proofs.Rule.Reading

/-!
# Where a text becomes hopeless

A fault is reported at the first point from which the text cannot be mended any more.
Up to there some continuation is accepted; with the character there, every continuation
is rejected for the same fault at the same offset (`parse_error_hopeless`). The one fault
that shows before it is decided is a missing name: blanks may stand between the sign and
the name, so it is decided at the next reserved character (`decisionPoint`).

Both halves rest on how little the steps know of what comes behind them. A step looks at
the text left over only to see whether a run of text is over, so a reading may be moved
in front of any other text that does not make a run longer (`Reads.congr`); and where a
rule is due next, no run can be made longer at all (`Reads.congr_due`).

- `Turning` — what a refusal comes to: the text that was still fine, and the rest, whose
  first character decides;
- `finish_closing` — the way out of any open frames is to close them.

The offset is the one that the operation `parse` returns.
-/

namespace TagLogic

theorem Bounded.left {s t : List Char} (h : Bounded (s ++ t)) : Bounded s := by
  cases s with
  | nil => exact bounded_nil
  | cons c s => exact h

namespace Reader

variable {limit : Option Nat} {depth : Nat} {start state next : State} {taken rest : List Char}

/-! ## Readings in front of other texts -/

/-- A step may be taken in front of any text that ends a run of text if the old one did. -/
theorem Step.congr (h : Step limit depth state taken rest next) {other : List Char}
    (hother : Bounded rest → Bounded other) : Step limit depth state taken other next := by
  cases h with
  | opens hbefore hc hroom => exact .opens hbefore hc hroom
  | tags hbefore htext hafter hrest => exact .tags hbefore htext hafter (hother hrest)
  | names hbefore hinner htext hafter hrest =>
    exact .names hbefore hinner htext hafter (hother hrest)
  | negates => exact .negates
  | separates hbefore => exact .separates hbefore
  | closes hbefore => exact .closes hbefore

/-- **A reading may be moved in front of any text that ends a run of text if the old one did.** -/
theorem Reads.congr (h : Reads limit depth start taken rest state) :
    ∀ {other : List Char}, (Bounded rest → Bounded other) →
      Reads limit depth start taken other state := by
  induction h with
  | refl => exact fun _ => .refl
  | @tail taken more rest _ _ _ hstep ih =>
    intro other hother
    refine .tail (ih fun hbounded => ?_) (hstep.congr hother)
    by_cases hmore : more = []
    · subst hmore
      exact hother hbounded
    · exact hbounded.append hmore

/-- **Where a rule is due, what has been read may be moved in front of any text.** -/
theorem Reads.congr_due {frames : List Frame}
    (h : Reads limit depth start taken rest (.due frames)) (other : List Char) :
    Reads limit depth start taken other (.due frames) := by
  cases h with
  | refl => exact .refl
  | tail hreads hstep =>
    -- The last step took a mark, and the texts behind that mark are not looked at.
    cases hstep with
    | opens hbefore hc hroom =>
      refine .tail (hreads.congr fun hbounded => ?_) (.opens hbefore hc hroom)
      exact hbounded.append (by simp)
    | separates hbefore =>
      refine .tail (hreads.congr fun hbounded => ?_) (.separates hbefore)
      exact hbounded.append (by simp)

/-! ## Ways out -/

/-- Closes the frames, the innermost first. -/
def closing : List Frame → List Char
  | [] => []
  | .negation :: frames => closing frames
  | .group kind _ :: frames => kind.closer :: closing frames

theorem bounded_closing (frames : List Frame) : Bounded (closing frames) := by
  induction frames with
  | nil => exact bounded_nil
  | cons frame frames ih =>
    cases frame with
    | negation => exact ih
    | group kind parts => exact bounded_cons kind.isReserved_closer _

/-- **With a rule done, closing the frames is a way out.** -/
theorem finish_closing (limit : Option Nat) (depth : Nat) (frames : List Frame) :
    ∀ rule, ∃ whole, finish limit depth (.done rule frames) (closing frames) = .ok whole := by
  induction frames with
  | nil => exact fun rule => ⟨rule, finish_of_blanks blanks_nil rule⟩
  | cons frame frames ih =>
    intro rule
    cases frame with
    | negation =>
      obtain ⟨whole, hwhole⟩ := ih (.not rule)
      exact ⟨whole, by rw [closing, finish_negates, hwhole]⟩
    | group kind parts =>
      obtain ⟨whole, hwhole⟩ := ih (.group kind (rule :: parts).reverse)
      refine ⟨whole, ?_⟩
      rw [closing, ← List.nil_append (kind.closer :: closing frames), finish_closes blanks_nil,
        hwhole]

/-- The shortest token there is. -/
theorem isToken_x : IsToken ['x'] := by decide

/-- **With a rule due, any token and closing the frames is a way out.** -/
theorem finish_due_closing {before : List Char} (hbefore : Blanks before) (frames : List Frame) :
    ∃ whole, finish limit depth (.due frames) (before ++ 'x' :: closing frames) = .ok whole := by
  have htoken : Step limit depth (.due frames) (before ++ (['x'] ++ [])) (closing frames)
      (.done (.tagged (String.ofList ['x'])) frames) :=
    .tags hbefore isToken_x blanks_nil (bounded_closing frames)
  obtain ⟨whole, hwhole⟩ := finish_closing limit depth frames (.tagged (String.ofList ['x']))
  refine ⟨whole, ?_⟩
  rw [← hwhole, ← finish_of_step htoken, List.append_assoc]
  rfl

/-- **Behind the sign of a name, so it is as well.** -/
theorem finish_name_closing {before inner : List Char} (hbefore : Blanks before)
    (hinner : Blanks inner) (frames : List Frame) :
    ∃ whole, finish limit depth (.due frames)
      (before ++ '@' :: (inner ++ 'x' :: closing frames)) = .ok whole := by
  have htoken : Step limit depth (.due frames) (before ++ '@' :: (inner ++ (['x'] ++ [])))
      (closing frames) (.done (.named (String.ofList ['x'])) frames) :=
    .names hbefore hinner isToken_x blanks_nil (bounded_closing frames)
  obtain ⟨whole, hwhole⟩ := finish_closing limit depth frames (.named (String.ofList ['x']))
  refine ⟨whole, ?_⟩
  rw [← hwhole, ← finish_of_step htoken]
  simp only [List.append_assoc, List.cons_append, List.nil_append]

/-! ## Refusals -/

/-- The unread text from where the fault was decided on. -/
def Stop.decided (stop : Stop) : List Char :=
  if stop.fault = .noText then stop.unread.dropWhile (!isReserved ·) else stop.unread

theorem Stop.decided_of_ne {stop : Stop} (h : stop.fault ≠ .noText) :
    stop.decided = stop.unread := if_neg h

/-- Where a rule has to begin and none does, no name is missing and nothing is left over. -/
theorem noRuleAt_ne (frames : List Frame) (c : Option Char) :
    noRuleAt frames c ≠ .noText ∧ ∀ d, noRuleAt frames c ≠ .trailing d := by
  unfold noRuleAt
  split
  · exact ⟨nofun, nofun⟩
  · split
    · exact ⟨nofun, nofun⟩
    · split
      · exact ⟨nofun, nofun⟩
      · exact ⟨nofun, nofun⟩
  · exact ⟨nofun, nofun⟩
  · exact ⟨nofun, nofun⟩

/-- What is unread at a fault had been left to read, with the sign before it if a name is missing.
-/
theorem Refuses.length_unread_le {s : List Char} {stop : Stop}
    (h : Refuses limit depth state s stop) :
    stop.unread.length ≤ s.length ∧
      (stop.fault = .noText → stop.unread.length < s.length) := by
  cases h with
  | ends => exact ⟨Nat.zero_le _, fun h => absurd h (noRuleAt_ne _ none).1⟩
  | misplaced => exact ⟨by simp, fun h => absurd h (noRuleAt_ne _ (some _)).1⟩
  | unclosed => exact ⟨Nat.zero_le _, nofun⟩
  | tooDeep | wrongCloser | noSeparator | trailing => exact ⟨by simp, nofun⟩
  | noText =>
    simp only [List.length_append, List.length_cons]
    omega

theorem length_unread_le {s : List Char} {stop : Stop}
    (h : finish limit depth state s = .error stop) :
    stop.unread.length ≤ s.length ∧
      (stop.fault = .noText → stop.unread.length < s.length) := by
  obtain ⟨taken, rest, last, rfl, -, hstop⟩ := finish_eq_error_iff.mp h
  obtain ⟨hle, hlt⟩ := hstop.length_unread_le
  rw [List.length_append]
  exact ⟨by omega, fun hfault => by have := hlt hfault; omega⟩

/-- What a refusal comes to: the fault shows behind `front`, and it is decided behind `kept`,
by what comes next. -/
structure Turning (limit : Option Nat) (depth : Nat) (state : State) (rest : List Char)
    (stop : Stop) (front kept : List Char) : Prop where
  rest_eq : rest = front ++ stop.unread
  unread_eq : stop.unread = kept ++ stop.decided
  /-- Before it is decided there is a way out, and one that ends a run of text if need be. -/
  hope : ∃ more whole, finish limit depth state (front ++ (kept ++ more)) = .ok whole ∧
    ((∃ frames, state = .due frames) ∨ (Bounded rest → Bounded (front ++ (kept ++ more))))
  /-- With the next character the fault is the same whatever follows. -/
  hopeless : ∀ c tail, stop.decided = c :: tail → ∀ more,
    Refuses limit depth state (front ++ (kept ++ c :: more)) ⟨stop.fault, kept ++ c :: more⟩

/-- At most blanks may be left between a refusal and the character that decides it, unless a name is
missing. -/
theorem Turning.of_blanks {fault : Fault} {before unread : List Char} (hbefore : Blanks before)
    (hrest : rest = before ++ unread) (hfault : fault ≠ .noText)
    (hagain : ∀ c tail, unread = c :: tail → ∀ more,
      Refuses limit depth state (before ++ c :: more) ⟨fault, c :: more⟩) :
    Turning limit depth state rest ⟨fault, unread⟩ before [] := by
  have hdecided : Stop.decided ⟨fault, unread⟩ = unread := Stop.decided_of_ne hfault
  refine ⟨hrest, by rw [hdecided]; rfl, ?_, ?_⟩
  · -- The way out depends on whether a rule is due or done; the blanks do no harm to either.
    cases state with
    | due frames =>
      obtain ⟨whole, hwhole⟩ := finish_due_closing hbefore frames
      exact ⟨_, whole, hwhole, Or.inl ⟨frames, rfl⟩⟩
    | done rule frames =>
      obtain ⟨whole, hwhole⟩ := finish_closing limit depth frames rule
      refine ⟨closing frames, whole, by rw [finish_done_blanks hbefore]; exact hwhole,
        Or.inr fun hbounded => ?_⟩
      rw [hrest] at hbounded
      by_cases hnil : before = []
      · subst hnil
        exact bounded_closing frames
      · exact hbounded.append hnil
  · intro c tail htail more
    rw [hdecided] at htail
    exact hagain c tail htail more

/-- Where the text ends before anything else can be said, only blanks have gone by. -/
theorem Turning.of_end {fault : Fault} (hrest : Blanks rest) (hfault : fault ≠ .noText) :
    Turning limit depth state rest ⟨fault, []⟩ rest [] := by
  refine .of_blanks hrest (List.append_nil rest).symm hfault ?_
  intro c tail htail
  cases htail

/-- A character that is at fault whatever follows it turns the text right there. -/
theorem Turning.of_mark {fault : Fault} {before : List Char} {c : Char} (hbefore : Blanks before)
    (hfault : fault ≠ .noText)
    (hagain : ∀ more, Refuses limit depth state (before ++ c :: more) ⟨fault, c :: more⟩) :
    Turning limit depth state (before ++ c :: rest) ⟨fault, c :: rest⟩ before [] := by
  refine .of_blanks hbefore rfl hfault ?_
  intro d tail htail more
  cases htail
  exact hagain more

/-- **Every refusal has a turning point**; what is left over behind a whole rule turns it right
there. -/
theorem exists_turning {stop : Stop} (h : Refuses limit depth state rest stop) :
    ∃ front kept, Turning limit depth state rest stop front kept ∧
      ∀ c, stop.fault = .trailing c → Blanks front ∧ ∃ rule, state = .done rule [] := by
  cases h with
  | @ends frames _ hrest =>
    obtain ⟨hname, hleft⟩ := noRuleAt_ne frames none
    exact ⟨rest, [], .of_end hrest hname, fun c hc => absurd hc (hleft c)⟩
  | @misplaced frames before rest c hbefore hc =>
    obtain ⟨hname, hleft⟩ := noRuleAt_ne frames (some c)
    refine ⟨before, [], .of_mark hbefore hname ?_, fun d hd => absurd hd (hleft d)⟩
    exact fun _ => .misplaced hbefore hc
  | @tooDeep frames before rest c frame most hbefore hc hlimit hmost =>
    refine ⟨before, [], .of_mark hbefore (fun h => nomatch h) ?_, fun d hd => nomatch hd⟩
    exact fun _ => .tooDeep hbefore hc hlimit hmost
  | @noText frames before inner rest hbefore hinner hrest =>
    -- The fault shows in front of the blanks, which are kept until something else comes.
    have hdecided : Stop.decided ⟨.noText, inner ++ rest⟩ = rest := by
      rw [Stop.decided, if_pos rfl]
      exact dropWhile_run hinner.free hrest
    refine ⟨before ++ ['@'], inner, ⟨by simp, by rw [hdecided], ?_, ?_⟩, fun d hd => nomatch hd⟩
    · obtain ⟨whole, hwhole⟩ := finish_name_closing hbefore hinner frames
      refine ⟨'x' :: closing frames, whole, ?_, Or.inl ⟨frames, rfl⟩⟩
      rw [List.append_assoc before]
      exact hwhole
    · intro c tail htail more
      rw [hdecided] at htail
      subst htail
      rw [List.append_assoc before, List.singleton_append]
      exact .noText hbefore hinner (bounded_cons (hrest c rfl) more)
  | @unclosed rule kind parts frames _ hrest =>
    exact ⟨rest, [], .of_end hrest (fun h => nomatch h), fun c hc => nomatch hc⟩
  | @wrongCloser rule kind parts frames before rest c hbefore hc hne =>
    refine ⟨before, [], .of_mark hbefore (fun h => nomatch h) ?_, fun d hd => nomatch hd⟩
    exact fun _ => .wrongCloser hbefore hc hne
  | @noSeparator rule kind parts frames before rest c hbefore hblank hcomma hc =>
    refine ⟨before, [], .of_mark hbefore (fun h => nomatch h) ?_, fun d hd => nomatch hd⟩
    exact fun _ => .noSeparator hbefore hblank hcomma hc
  | @trailing rule before rest c hbefore hblank =>
    refine ⟨before, [], .of_mark hbefore (fun h => nomatch h) ?_, fun d _ => ⟨hbefore, rule, rfl⟩⟩
    exact fun _ => .trailing hbefore hblank

/-! ## Seen from where the reading began -/

variable {stop : Stop} {front kept : List Char}

/-- Before the fault is decided there is a way out. -/
theorem Turning.exists_finish (h : Turning limit depth state rest stop front kept)
    (hreads : Reads limit depth start taken rest state) :
    ∃ more whole, finish limit depth start (taken ++ (front ++ (kept ++ more))) = .ok whole := by
  obtain ⟨more, whole, hway, hmove⟩ := h.hope
  have hmoved : Reads limit depth start taken (front ++ (kept ++ more)) state := by
    rcases hmove with ⟨frames, rfl⟩ | hbounded
    · exact hreads.congr_due _
    · exact hreads.congr hbounded
  exact ⟨more, whole, by rw [finish_of_reads hmoved, hway]⟩

/-- With the character that decides it, the fault is the same whatever follows. -/
theorem Turning.finish_eq_error (h : Turning limit depth state rest stop front kept)
    (hreads : Reads limit depth start taken rest state) {c : Char} {tail : List Char}
    (hdecided : stop.decided = c :: tail) (more : List Char) :
    finish limit depth start (taken ++ (front ++ (kept ++ c :: more))) =
      .error ⟨stop.fault, kept ++ c :: more⟩ := by
  have hmoved : Reads limit depth start taken (front ++ (kept ++ c :: more)) state := by
    refine hreads.congr fun hbounded => ?_
    -- The character is in both texts, so the first one of them is the same.
    have hsplit : ∀ t, front ++ (kept ++ c :: t) = (front ++ kept ++ [c]) ++ t := by simp
    rw [h.rest_eq, h.unread_eq, hdecided, hsplit] at hbounded
    rw [hsplit]
    exact hbounded.append (by simp)
  rw [finish_of_reads hmoved, finish_of_refuses (h.hopeless c tail hdecided more)]

end Reader

namespace Rule

open Reader (Reads Refuses Turning Stop)

/-- How many characters stand before the one that decides the fault: those before the fault, and
where a name is missing, those before the next reserved character. -/
def decisionPoint (s : List Char) (e : SyntaxError) : Nat :=
  if e.fault = .noText then e.offset + (s.drop e.offset).findIdx isReserved else e.offset

/-- What decides the fault is what stands behind the decision point. -/
theorem decisionPoint_eq {before : List Char} {stop : Stop} {s : List Char}
    (hs : s = before ++ stop.unread) :
    decisionPoint s ⟨stop.fault, s.length - stop.unread.length⟩ =
      s.length - stop.decided.length := by
  have hoffset : s.length - stop.unread.length = before.length := by
    rw [hs, List.length_append]
    omega
  unfold decisionPoint Stop.decided
  dsimp only
  split
  next =>
    have hdrop : s.drop before.length = stop.unread := by rw [hs, List.drop_left]
    have hindex : (stop.unread.dropWhile (!isReserved ·)).length =
        stop.unread.length - stop.unread.findIdx isReserved := by
      rw [List.dropWhile_eq_drop_findIdx_not, List.length_drop]
      simp
    have hle : stop.unread.findIdx isReserved ≤ stop.unread.length := List.findIdx_le_length
    rw [hoffset, hdrop, hindex, hs, List.length_append]
    omega
  next => rfl

/-- **Every fault is reported where the text becomes hopeless.** Up to the decision point some
continuation is read; with the character there none is, and the error is always this one. What is
left over is left over behind a whole rule. -/
theorem parse_error_hopeless {text : String} {e : SyntaxError} (h : parse text = .error e) :
    (∃ more rule,
      parse (.ofList (text.toList.take (decisionPoint text.toList e) ++ more)) = .ok rule) ∧
    (decisionPoint text.toList e < text.toList.length → ∀ more,
      parse (.ofList (text.toList.take (decisionPoint text.toList e + 1) ++ more)) = .error e) ∧
    (∀ c, e.fault = .trailing c →
      ∃ rule, parse (.ofList (text.toList.take e.offset)) = .ok rule) := by
  obtain ⟨taken, rest, state, stop, htext, hreads, hstop, rfl⟩ := parseWithin_eq_error_iff.mp h
  obtain ⟨front, kept, hturning, hleft⟩ := Reader.exists_turning hstop
  have hfront : text.toList = (taken ++ front) ++ stop.unread := by
    rw [htext, hturning.rest_eq, List.append_assoc]
  have hpoint : text.toList = (taken ++ (front ++ kept)) ++ stop.decided := by
    rw [hfront, hturning.unread_eq]
    simp only [List.append_assoc]
  have hlength : decisionPoint text.toList ⟨stop.fault, text.toList.length - stop.unread.length⟩ =
      (taken ++ (front ++ kept)).length := by
    rw [decisionPoint_eq hfront, hpoint, List.length_append]
    omega
  rw [hlength]
  refine ⟨?_, ?_, ?_⟩
  · obtain ⟨more, whole, hfinish⟩ := hturning.exists_finish hreads
    have htake : text.toList.take (taken ++ (front ++ kept)).length ++ more =
        taken ++ (front ++ (kept ++ more)) := by
      rw [hpoint, List.take_left, List.append_assoc, List.append_assoc]
    refine ⟨more, whole, ?_⟩
    rw [parse, parseWithin_eq_finish, String.toList_ofList, htake, hfinish]
    rfl
  · intro hlt more
    obtain ⟨c, tail, hdecided⟩ : ∃ c tail, stop.decided = c :: tail := by
      refine List.exists_cons_of_ne_nil fun hnil => ?_
      rw [hpoint, hnil, List.append_nil] at hlt
      exact Nat.lt_irrefl _ hlt
    have htake : text.toList.take ((taken ++ (front ++ kept)).length + 1) ++ more =
        taken ++ (front ++ (kept ++ c :: more)) := by
      have hone : text.toList = (taken ++ (front ++ kept) ++ [c]) ++ tail := by
        rw [hpoint, hdecided, List.append_cons]
      rw [hone, ← List.length_concat, List.concat_eq_append, List.take_left]
      simp only [List.append_assoc, List.singleton_append]
    have hoffset : (taken ++ (front ++ (kept ++ c :: more))).length - (kept ++ c :: more).length =
        text.toList.length - stop.unread.length := by
      rw [hfront]
      simp only [List.length_append]
      omega
    rw [parse, parseWithin_eq_finish, String.toList_ofList, htake,
      hturning.finish_eq_error hreads hdecided more, ← hoffset]
    rfl
  · intro c hc
    obtain ⟨hblanks, rule, rfl⟩ := hleft c hc
    have htake : text.toList.take (text.toList.length - stop.unread.length) = taken ++ front := by
      have hoffset : text.toList.length - stop.unread.length = (taken ++ front).length := by
        rw [hfront, List.length_append]
        omega
      rw [hoffset, hfront, List.take_left]
    have hmoved := hreads.congr fun hbounded => Bounded.left (hturning.rest_eq ▸ hbounded)
    refine ⟨rule, ?_⟩
    rw [parse, parseWithin_eq_finish, String.toList_ofList, htake, Reader.finish_of_reads hmoved,
      Reader.finish_of_blanks hblanks]
    rfl

/-- A name that is missing is missed right behind its sign and decided behind the blanks. -/
theorem parse_error_hopeless_noText :
    parse "[a, @ )" = .error ⟨.noText, 5⟩ ∧
      (∃ more rule, parse (.ofList ("[a, @ ".toList ++ more)) = .ok rule) ∧
      ∀ more, parse (.ofList ("[a, @ )".toList ++ more)) = .error ⟨.noText, 5⟩ := by
  have hrejected : parse "[a, @ )" = .error ⟨.noText, 5⟩ := by with_unfolding_all rfl
  obtain ⟨hbefore, hbehind, -⟩ := parse_error_hopeless hrejected
  exact ⟨hrejected, hbefore, hbehind (by decide)⟩

end Rule

end TagLogic
