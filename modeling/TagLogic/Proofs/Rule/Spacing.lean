import TagLogic.Proofs.Rule.Continuation

/-!
# Blanks between tokens

Blanks may stand wherever no token is cut: at a `Gap`, that is at a place from which, to
one side or the other, only blanks stand up to a reserved character or to that end of the
text. One blank more at a gap changes nothing that is read and no fault that is found; it
only counts in the offset of what comes behind it. The one fault that may stand before
the new blank at the same place is a missing name, which shows in front of its blanks.

> `parse_insert_blank`: at a gap one blank more moves the errors behind it, and nothing
> else.

A gap is a gap of what is left to read as well (`Gap.behind`), and no token has one
inside (`not_gap_token`). So a step takes the new blank along or leaves it unread
(`Step.insert`), a refusal stays where it is or is pushed back (`Refuses.insert`), and
both together carry it through a whole reading (`finish_insert`).

The blanks are those that the productions `ws` and `text` take off, and no others.
-/

namespace TagLogic

/-- The place between the texts cuts no token: to one side of it there are only blanks up to a
reserved character or to the end. -/
def Gap (left right : List Char) : Prop :=
  Bounded (skipBlanks left.reverse) ∨ Bounded (skipBlanks right)

instance (left right : List Char) : Decidable (Gap left right) :=
  inferInstanceAs (Decidable (_ ∨ _))

/-! ## Gaps -/

variable {left right : List Char} {b : Char}

/-- What begins with part of a token shows a character of it behind the blanks. -/
theorem not_bounded_skipBlanks {part : List Char} (hfree : ∀ c ∈ part, isReserved c = false)
    (hpart : ∃ c ∈ part, isBlank c = false) (s : List Char) :
    ¬ Bounded (skipBlanks (part ++ s)) := by
  intro hbounded
  rcases blanks_or_first part with hblank | ⟨before, c, rest, rfl, hbefore, hc⟩
  · obtain ⟨c, hmem, hc⟩ := hpart
    rw [hblank c hmem] at hc
    cases hc
  · rw [List.append_assoc, skipBlanks_append hbefore, List.cons_append, skipBlanks_cons hc]
      at hbounded
    have hreserved := hbounded c rfl
    rw [hfree c (by simp)] at hreserved
    cases hreserved

/-- A gap remains one when what was read before it is left out. -/
theorem Gap.behind {taken : List Char} (h : Gap (taken ++ left) right) : Gap left right := by
  rcases h with h | h
  · rw [List.reverse_append] at h
    rcases blanks_or_first left.reverse with hblank | ⟨before, c, rest, heq, hbefore, hc⟩
    · exact Or.inl (by rw [skipBlanks_blanks hblank]; exact bounded_nil)
    · rw [heq, List.append_assoc, skipBlanks_append hbefore, List.cons_append,
        skipBlanks_cons hc] at h
      refine Or.inl ?_
      rw [heq, skipBlanks_append hbefore, skipBlanks_cons hc]
      exact h
  · exact Or.inr h

/-- **No token has a gap inside.** -/
theorem not_gap_token {front back : List Char} (htoken : IsToken (front ++ back))
    (hfront : front ≠ []) (hback : back ≠ []) (before after : List Char) :
    ¬ Gap (before ++ front) (back ++ after) := by
  intro hgap
  rcases hgap with hgap | hgap
  · obtain ⟨c, more, rfl⟩ := List.exists_cons_of_ne_nil hfront
    rw [List.reverse_append] at hgap
    refine not_bounded_skipBlanks ?_ ⟨c, by simp, htoken.head c rfl⟩ before.reverse hgap
    exact fun d hd => htoken.free d (List.mem_append_left back (List.mem_reverse.mp hd))
  · rcases List.eq_nil_or_concat back with hnil | ⟨more, c, rfl⟩
    · exact hback hnil
    · refine not_bounded_skipBlanks ?_ ⟨c, by simp, htoken.last c (by simp)⟩ after hgap
      exact fun d hd => htoken.free d (List.mem_append_right front hd)

theorem Blanks.cons {s : List Char} (h : Blanks s) (hb : isBlank b = true) : Blanks (b :: s) :=
  List.forall_mem_cons.mpr ⟨hb, h⟩

theorem Blanks.insert (hb : isBlank b = true) (h : Blanks (left ++ right)) :
    Blanks (left ++ b :: right) := by
  have hright : Blanks right := fun c hc => h c (List.mem_append_right left hc)
  exact Blanks.append (fun c hc => h c (List.mem_append_left right hc)) (hright.cons hb)

namespace Reader

/-! ## Where a blank goes -/

/-- A place beside a mark is before it, among the blanks in front, or behind it. -/
theorem beside_mark {before rest : List Char} {c : Char}
    (h : before ++ c :: rest = left ++ right) :
    (∃ back, before = left ++ back ∧ right = back ++ c :: rest) ∨
      ∃ front, left = before ++ c :: front ∧ rest = front ++ right := by
  rcases List.append_eq_append_iff.mp h with ⟨front, rfl, hfront⟩ | ⟨back, rfl, hback⟩
  · cases front with
    | nil => exact Or.inl ⟨[], by simp, by simpa using hfront.symm⟩
    | cons d front =>
      cases hfront
      exact Or.inr ⟨front, rfl, rfl⟩
  · exact Or.inl ⟨back, rfl, hback⟩

/-- A blank put into a run at a gap belongs to the blanks around the token, or stands behind
something that ended the run. -/
theorem insert_run {inner text after rest : List Char} (hinner : Blanks inner)
    (htext : IsToken text) (hafter : Blanks after) (hb : isBlank b = true)
    (hgap : Gap left right) (h : inner ++ (text ++ after) ++ rest = left ++ right) :
    (∃ inner' after', Blanks inner' ∧ Blanks after' ∧ rest.length ≤ right.length ∧
      left ++ b :: right = inner' ++ (text ++ after') ++ rest) ∨
    ∃ front, front ≠ [] ∧ left = inner ++ (text ++ after) ++ front ∧ rest = front ++ right := by
  rw [List.append_assoc, List.append_assoc] at h
  rcases List.append_eq_append_iff.mp h with ⟨front, rfl, hfront⟩ | ⟨back, rfl, rfl⟩
  · rcases List.append_eq_append_iff.mp hfront with ⟨behind, rfl, hbehind⟩ | ⟨back, rfl, rfl⟩
    · rcases List.append_eq_append_iff.mp hbehind with ⟨more, rfl, rfl⟩ | ⟨back, rfl, rfl⟩
      · cases more with
        | nil =>
          refine Or.inl ⟨inner, after ++ [b], hinner, ?_, Nat.le_refl _, by simp⟩
          exact hafter.append (blanks_nil.cons hb)
        | cons c more => exact Or.inr ⟨c :: more, by simp, by simp, rfl⟩
      · refine Or.inl ⟨inner, behind ++ b :: back, hinner, .insert hb hafter, ?_, by simp⟩
        simp
    · -- The place is at the token, so at one end of it.
      by_cases hstart : front = []
      · subst hstart
        refine Or.inl ⟨inner ++ [b], after, hinner.append (blanks_nil.cons hb), hafter, ?_, by simp⟩
        simp only [List.length_append]
        omega
      · by_cases hend : back = []
        · subst hend
          exact Or.inl ⟨inner, b :: after, hinner, hafter.cons hb, by simp, by simp⟩
        · exact absurd hgap (not_gap_token htext hstart hend inner (after ++ rest))
  · refine Or.inl ⟨left ++ b :: back, after, .insert hb hinner, hafter, ?_, by simp⟩
    simp only [List.length_append]
    omega

variable {limit : Option Nat} {depth : Nat} {state next : State}

/-- A step that takes blanks and a mark takes one blank more, or leaves it behind the mark. -/
theorem insert_mark_step {before rest : List Char} {c : Char} (hbefore : Blanks before)
    (hb : isBlank b = true) (h : before ++ [c] ++ rest = left ++ right)
    (hagain : ∀ {before rest : List Char}, Blanks before →
      Step limit depth state (before ++ [c]) rest next) :
    (∃ taken, rest.length ≤ right.length ∧ left ++ b :: right = taken ++ rest ∧
      Step limit depth state taken rest next) ∨
    ∃ front, left = before ++ [c] ++ front ∧ rest = front ++ right ∧
      Step limit depth state (before ++ [c]) (front ++ b :: right) next := by
  rw [List.append_assoc, List.singleton_append] at h
  rcases beside_mark h with ⟨back, rfl, rfl⟩ | ⟨front, rfl, rfl⟩
  · refine Or.inl ⟨left ++ b :: back ++ [c], ?_, by simp, hagain (.insert hb hbefore)⟩
    simp only [List.length_append, List.length_cons]
    omega
  · exact Or.inr ⟨front, by simp, rfl, hagain hbefore⟩

/-- **A step takes a blank put in at a gap along, or leaves it unread.** -/
theorem Step.insert {taken rest : List Char} (h : Step limit depth state taken rest next)
    (hb : isBlank b = true) (hgap : Gap left right) (hsplit : taken ++ rest = left ++ right) :
    (∃ taken', rest.length ≤ right.length ∧ left ++ b :: right = taken' ++ rest ∧
      Step limit depth state taken' rest next) ∨
    ∃ front, left = taken ++ front ∧ rest = front ++ right ∧
      Step limit depth state taken (front ++ b :: right) next := by
  cases h with
  | opens hbefore hc hroom =>
    exact insert_mark_step hbefore hb hsplit fun hbefore => .opens hbefore hc hroom
  | separates hbefore => exact insert_mark_step hbefore hb hsplit .separates
  | closes hbefore => exact insert_mark_step hbefore hb hsplit .closes
  | negates => exact Or.inr ⟨left, rfl, hsplit, .negates⟩
  | tags hbefore htext hafter hrest =>
    rcases insert_run hbefore htext hafter hb hgap hsplit with
        ⟨before', after', hbefore', hafter', hle, heq⟩ | ⟨front, hne, rfl, rfl⟩
    · exact Or.inl ⟨_, hle, heq, .tags hbefore' htext hafter' hrest⟩
    · exact Or.inr ⟨front, rfl, rfl, .tags hbefore htext hafter (hrest.append hne)⟩
  | @names frames before inner text after _ hbefore hinner htext hafter hrest =>
    rw [List.append_assoc, List.cons_append] at hsplit
    rcases beside_mark hsplit with ⟨back, rfl, rfl⟩ | ⟨front, rfl, hfront⟩
    · refine Or.inl ⟨_, ?_, ?_, .names (.insert hb hbefore) hinner htext hafter hrest⟩
      · simp only [List.length_append, List.length_cons]
        omega
      · simp
    · rw [List.append_cons] at hgap
      rcases insert_run hinner htext hafter hb hgap.behind hfront with
          ⟨inner', after', hinner', hafter', hle, heq⟩ | ⟨more, hne, rfl, rfl⟩
      · refine Or.inl ⟨_, hle, ?_, .names hbefore hinner' htext hafter' hrest⟩
        rw [List.append_assoc, List.cons_append, heq]
        simp
      · refine Or.inr ⟨more, by simp, rfl, ?_⟩
        exact .names hbefore hinner htext hafter (hrest.append hne)

/-! ## Refusals -/

/-- The stop where a blank is put in so that `right` stands behind it. -/
def Stop.spaced (b : Char) (right : List Char) (stop : Stop) : Stop :=
  if stop.unread.length < right.length ∨
      (stop.unread.length = right.length ∧ stop.fault ≠ .noText) then stop
  else ⟨stop.fault, stop.unread.take (stop.unread.length - right.length) ++ b :: right⟩

/-- Behind the blank nothing changes. -/
theorem Stop.spaced_of_le {stop : Stop} (hle : stop.unread.length ≤ right.length)
    (hne : stop.fault = .noText → stop.unread.length < right.length) :
    stop.spaced b right = stop := by
  refine if_pos ?_
  by_cases hlt : stop.unread.length < right.length
  · exact Or.inl hlt
  · exact Or.inr ⟨by omega, fun hfault => hlt (hne hfault)⟩

theorem Stop.spaced_nil {fault : Fault} (h : fault ≠ .noText) :
    Stop.spaced b right ⟨fault, []⟩ = ⟨fault, []⟩ :=
  spaced_of_le (Nat.zero_le _) fun hfault => absurd hfault h

/-- Before the blank, the blank is unread. -/
theorem Stop.spaced_append {fault : Fault} {front : List Char}
    (h : front ≠ [] ∨ fault = .noText) :
    Stop.spaced b right ⟨fault, front ++ right⟩ = ⟨fault, front ++ b :: right⟩ := by
  have hunread : (front ++ right).length - right.length = front.length := by
    rw [List.length_append]
    omega
  unfold Stop.spaced
  rw [if_neg, hunread, List.take_left]
  rintro (hlt | ⟨heq, hfault⟩)
  · rw [List.length_append] at hlt
    omega
  · rcases h with hne | hname
    · rw [List.length_append] at heq
      exact hne (List.eq_nil_of_length_eq_zero (by omega))
    · exact hfault hname

/-- A refusal at a mark stays there if the blank comes among those in front, and is pushed back if
it comes behind. -/
theorem insert_mark_refusal {fault : Fault} {before rest : List Char} {c : Char}
    (hbefore : Blanks before) (hb : isBlank b = true) (hfault : fault ≠ .noText)
    (h : left ++ right = before ++ c :: rest)
    (hagain : ∀ {before rest : List Char}, Blanks before →
      Refuses limit depth state (before ++ c :: rest) ⟨fault, c :: rest⟩) :
    Refuses limit depth state (left ++ b :: right) (Stop.spaced b right ⟨fault, c :: rest⟩) := by
  rcases beside_mark h.symm with ⟨back, rfl, rfl⟩ | ⟨front, rfl, rfl⟩
  · have hmore : Refuses limit depth state ((left ++ b :: back) ++ c :: rest) ⟨fault, c :: rest⟩ :=
      hagain (.insert hb hbefore)
    rw [Stop.spaced_of_le (by simp) fun h => absurd h hfault]
    rwa [List.append_assoc, List.cons_append] at hmore
  · rw [← List.cons_append, Stop.spaced_append (Or.inl (by simp)), List.append_assoc,
      List.cons_append]
    exact hagain hbefore

/-- A name that is missing stays missed right behind its sign, with the blank unread if it comes
behind the sign. -/
theorem insert_missing_name {before inner rest : List Char} {frames : List Frame}
    (hbefore : Blanks before) (hinner : Blanks inner) (hrest : Bounded rest)
    (hb : isBlank b = true) (h : left ++ right = before ++ '@' :: (inner ++ rest)) :
    Refuses limit depth (.due frames) (left ++ b :: right)
      (Stop.spaced b right ⟨.noText, inner ++ rest⟩) := by
  rcases beside_mark h.symm with ⟨back, rfl, rfl⟩ | ⟨front, rfl, hfront⟩
  · have hmore : Refuses limit depth (.due frames) ((left ++ b :: back) ++ '@' :: (inner ++ rest))
        ⟨.noText, inner ++ rest⟩ := .noText (.insert hb hbefore) hinner hrest
    rw [Stop.spaced_of_le (by simp; omega) fun _ => by simp; omega]
    rwa [List.append_assoc, List.cons_append] at hmore
  · rw [hfront, Stop.spaced_append (Or.inr rfl), List.append_assoc, List.cons_append]
    rcases List.append_eq_append_iff.mp hfront with ⟨more, rfl, rfl⟩ | ⟨back, rfl, rfl⟩
    · cases more with
      | nil =>
        have hmore : Refuses limit depth (.due frames) (before ++ '@' :: ((inner ++ [b]) ++ right))
            ⟨.noText, (inner ++ [b]) ++ right⟩ :=
          .noText hbefore (hinner.append (blanks_nil.cons hb)) hrest
        simpa using hmore
      | cons c more =>
        have hmore : Refuses limit depth (.due frames)
            (before ++ '@' :: (inner ++ (c :: more ++ b :: right)))
            ⟨.noText, inner ++ (c :: more ++ b :: right)⟩ :=
          .noText hbefore hinner (hrest.append (by simp))
        rwa [← List.append_assoc inner] at hmore
    · have hmore : Refuses limit depth (.due frames)
          (before ++ '@' :: ((front ++ b :: back) ++ rest))
          ⟨.noText, (front ++ b :: back) ++ rest⟩ :=
        .noText hbefore (.insert hb hinner) hrest
      rwa [List.append_assoc, List.cons_append] at hmore

/-- **A refusal stays where it is or is pushed back by a blank put in.** -/
theorem Refuses.insert {stop : Stop} (h : Refuses limit depth state (left ++ right) stop)
    (hb : isBlank b = true) :
    Refuses limit depth state (left ++ b :: right) (stop.spaced b right) := by
  generalize hs : left ++ right = s at h
  cases h with
  | @ends frames _ hblanks =>
    rw [Stop.spaced_nil (noRuleAt_ne frames none).1]
    exact .ends (.insert hb (hs ▸ hblanks))
  | @unclosed _ kind _ _ _ hblanks =>
    rw [Stop.spaced_nil (fun h : Fault.unclosed kind = .noText => nomatch h)]
    exact .unclosed (.insert hb (hs ▸ hblanks))
  | @misplaced frames _ _ c hbefore hc =>
    exact insert_mark_refusal hbefore hb (noRuleAt_ne frames (some c)).1 hs
      fun hbefore => .misplaced hbefore hc
  | tooDeep hbefore hc hlimit hmost =>
    exact insert_mark_refusal hbefore hb nofun hs fun hbefore => .tooDeep hbefore hc hlimit hmost
  | wrongCloser hbefore hc hne =>
    exact insert_mark_refusal hbefore hb nofun hs fun hbefore => .wrongCloser hbefore hc hne
  | noSeparator hbefore hblank hcomma hc =>
    exact insert_mark_refusal hbefore hb nofun hs
      fun hbefore => .noSeparator hbefore hblank hcomma hc
  | trailing hbefore hc =>
    exact insert_mark_refusal hbefore hb nofun hs fun hbefore => .trailing hbefore hc
  | noText hbefore hinner hrest => exact insert_missing_name hbefore hinner hrest hb hs

/-! ## Whole readings -/

/-- **A blank put in at a gap pushes back the faults before it, and changes nothing else.** -/
theorem finish_insert (limit : Option Nat) (depth : Nat) (state : State) {left right : List Char}
    (hb : isBlank b = true) (hgap : Gap left right) :
    finish limit depth state (left ++ b :: right) =
      (finish limit depth state (left ++ right)).mapError (Stop.spaced b right) := by
  rcases next_cases limit depth state (left ++ right) with
      ⟨taken, rest, next, hsplit, hstep⟩ | ⟨stop, hstop⟩ | ⟨rule, rfl, hblanks⟩
  · have hsmaller := hstep.decreases
    rw [← hsplit] at hsmaller
    rcases hstep.insert hb hgap hsplit.symm with ⟨taken', hle, heq, hstep'⟩ |
        ⟨front, rfl, rfl, hstep'⟩
    · -- The blank has been taken, so all faults are behind it.
      rw [heq, hsplit, finish_of_step hstep', finish_of_step hstep]
      cases hfinish : finish limit depth next rest with
      | ok rule => rfl
      | error stop =>
        obtain ⟨hunread, hname⟩ := length_unread_le hfinish
        have hstay : stop.spaced b right = stop :=
          Stop.spaced_of_le (Nat.le_trans hunread hle) fun hfault =>
            Nat.lt_of_lt_of_le (hname hfault) hle
        show Except.error stop = .error (stop.spaced b right)
        rw [hstay]
    · rw [List.append_assoc, List.append_assoc, finish_of_step hstep', finish_of_step hstep]
      exact finish_insert limit depth next hb hgap.behind
  · rw [finish_of_refuses hstop, finish_of_refuses (hstop.insert hb)]
    rfl
  · rw [finish_of_blanks hblanks, finish_of_blanks (.insert hb hblanks)]
    rfl
termination_by state.size (left ++ right)

end Reader

/-- The error where one blank more stands at the place `p`: it is pushed back if the blank is in
front of it, and a missing name shows in front of the blanks. -/
def SyntaxError.pushedBack (p : Nat) (e : SyntaxError) : SyntaxError :=
  if p < e.offset ∨ (p = e.offset ∧ e.fault ≠ .noText) then ⟨e.fault, e.offset + 1⟩ else e

/-- An error is pushed back where a blank more is read before it. -/
theorem Reader.pushedBack_eq {stop : Reader.Stop} {left right : List Char} (b : Char)
    (hle : stop.unread.length ≤ (left ++ right).length) :
    SyntaxError.pushedBack left.length ⟨stop.fault, (left ++ right).length - stop.unread.length⟩ =
      ⟨(stop.spaced b right).fault,
        (left ++ b :: right).length - (stop.spaced b right).unread.length⟩ := by
  simp only [List.length_append] at hle
  have hlt : left.length < left.length + right.length - stop.unread.length ↔
      stop.unread.length < right.length := by omega
  have heq : left.length = left.length + right.length - stop.unread.length ↔
      stop.unread.length = right.length := by omega
  unfold SyntaxError.pushedBack Stop.spaced
  simp only [List.length_append, List.length_cons, hlt, heq]
  split
  · rw [SyntaxError.mk.injEq]
    exact ⟨rfl, by omega⟩
  · simp only [List.length_append, List.length_take, List.length_cons, SyntaxError.mk.injEq]
    exact ⟨trivial, by omega⟩

namespace Rule

/-- **At a gap one blank more moves the errors behind it, and nothing else.** -/
theorem parse_insert_blank {left right : List Char} {b : Char} (hb : isBlank b = true)
    (hgap : Gap left right) :
    parse (.ofList (left ++ b :: right)) =
      (parse (.ofList (left ++ right))).mapError (·.pushedBack left.length) := by
  rw [parse, parse, parseWithin_eq_finish, parseWithin_eq_finish, String.toList_ofList,
    String.toList_ofList, Reader.finish_insert _ _ _ hb hgap]
  cases hfinish : Reader.finish (some maxDepth) 0 (.due []) (left ++ right) with
  | ok rule => rfl
  | error stop =>
    have hle := (Reader.length_unread_le hfinish).1
    exact congrArg Except.error (Reader.pushedBack_eq b hle).symm

/-- Right behind the sign of a missing name the blank does not count, in front of it it does. -/
theorem parse_insert_blank_noText :
    Gap "[a, @".toList " )".toList ∧ Gap "[a,".toList " @ )".toList ∧
      parse "[a, @ )" = .error ⟨.noText, 5⟩ ∧
      parse (.ofList ("[a, @".toList ++ '\t' :: " )".toList)) = .error ⟨.noText, 5⟩ ∧
      parse (.ofList ("[a,".toList ++ '\t' :: " @ )".toList)) = .error ⟨.noText, 6⟩ := by
  have hbehind : Gap "[a, @".toList " )".toList := by decide
  have hbefore : Gap "[a,".toList " @ )".toList := by decide
  have hrejected : parse "[a, @ )" = .error ⟨.noText, 5⟩ := by with_unfolding_all rfl
  refine ⟨hbehind, hbefore, hrejected, ?_, ?_⟩
  · rw [parse_insert_blank (by decide) hbehind]
    show (parse "[a, @ )").mapError _ = _
    rw [hrejected]
    rfl
  · rw [parse_insert_blank (by decide) hbefore]
    show (parse "[a, @ )").mapError _ = _
    rw [hrejected]
    rfl

end Rule

end TagLogic
