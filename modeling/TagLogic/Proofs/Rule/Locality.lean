import TagLogic.Proofs.Rule.Rejection
import TagLogic.Proofs.Rule.Seam

/-!
# Reading a rule is local

One rule is read off the front of a text, and the rest is left. What was taken is then a
rule by itself: put it in front of any other text, with any number of frames open around it
that leaves room for its height, and the same rule is read and the other text is left.

Two things could tie a reading to its surroundings, and both are accounted for by what was
read:

- the text behind it, in which a run of text might go on. A closer at the end rules that
  out; otherwise nothing of the run may go on in the text behind (`EndsBefore`). So it was
  where the rule was read (`Reads.endsBefore`), and so it has to be again
  (`Reads.congr_done`);
- the frames around it, which count towards the limit. A step tests them only where it opens
  a frame, and each frame shows in the height of the rule that comes of it. So the heights
  at the end of a reading tell backwards that there was room at every step
  (`Step.of_fits`, `Reads.of_fits`).

> `run_local`: what was taken is read again as the same rule, in front of any text before
> which it ends and at any depth at which the rule fits.

One reading is one call of the production `rule`.
-/

namespace TagLogic

/-- A closer ends the text, blanks behind it aside. -/
def EndsClosed (s : List Char) : Prop := ∃ c ∈ lastMark s, isCloser c = true

/-- Nothing at the end of the one text can go on in the other, which stands behind it. -/
def EndsBefore (s rest : List Char) : Prop := EndsClosed s ∨ Bounded rest

instance (s : List Char) : Decidable (EndsClosed s) :=
  decidable_of_iff ((lastMark s).any isCloser = true) (by simp [EndsClosed, Option.any_eq_true])

instance (s rest : List Char) : Decidable (EndsBefore s rest) :=
  inferInstanceAs (Decidable (_ ∨ _))

theorem endsClosed_concat (front : List Char) (kind : Group) :
    EndsClosed (front ++ [kind.closer]) := by
  have hlast : lastMark (front ++ [kind.closer]) = some kind.closer :=
    lastMark_concat (isBlank_eq_false kind.isReserved_closer) front
  exact ⟨kind.closer, hlast, Group.isCloser_iff.mpr ⟨kind, rfl⟩⟩

/-- A token at the end is no closer, whatever blanks are behind it. -/
theorem not_endsClosed_token (front : List Char) {text trail : List Char} (htext : IsToken text)
    (htrail : Blanks trail) : ¬ EndsClosed (front ++ (text ++ trail)) := by
  intro hclosed
  obtain ⟨d, hd, hcloser⟩ := hclosed
  obtain ⟨c, hc, hlast⟩ := lastMark_append_token front htext
  rw [← List.append_assoc, lastMark_append_blanks _ htrail, hlast] at hd
  cases hd
  rw [(of_not_isReserved hc).1] at hcloser
  cases hcloser

namespace Reader

open Rule (maxDepth)

variable {limit limit' : Option Nat} {depth depth' : Nat} {start state next : State}
  {s taken rest : List Char} {rule : Rule} {frames : List Frame}

/-! ## The text behind -/

/-- What was read as a rule is over in front of what was left. -/
theorem Reads.endsBefore {outer : List Frame}
    (h : Reads limit depth (.due outer) taken rest (.done rule frames)) :
    EndsBefore taken rest := by
  generalize hstate : State.done rule frames = state at h
  induction h generalizing rule frames with
  | refl => cases hstate
  | @tail taken more rest state next hreads hstep ih =>
    cases hstep with
    | opens | separates => cases hstate
    | tags _ _ _ hrest => exact Or.inr hrest
    | names _ _ _ _ hrest => exact Or.inr hrest
    | negates =>
      rw [List.append_nil]
      exact ih rfl
    | @closes _ kind _ _ before _ _ =>
      rw [← List.append_assoc]
      exact Or.inl (endsClosed_concat _ kind)

theorem Reads.ne_nil {outer : List Frame}
    (h : Reads limit depth (.due outer) taken rest (.done rule frames)) : taken ≠ [] := by
  cases ending_of_reads h with
  | closed => simp
  | text htext => simp [htext.ne_nil]

/-- **A rule that was read may be moved in front of any text before which it ends.** -/
theorem Reads.congr_done {outer : List Frame}
    (h : Reads limit depth (.due outer) taken rest (.done rule frames)) {t : List Char}
    (ht : EndsBefore taken t) : Reads limit depth (.due outer) taken t (.done rule frames) := by
  rcases ht with hclosed | hbounded
  · cases ending_of_reads h with
    | closed hany => exact hany t
    | text htext htrail => exact absurd hclosed (not_endsClosed_token _ htext htrail)
  · exact h.congr fun _ => hbounded

/-! ## The frames around it -/

/-- A step to rules that fit another limit and depth is a step with these too, from rules that fit
them. -/
theorem Step.of_fits (h : Step limit depth state taken rest next)
    (hfits : next.Fits limit' depth') :
    Step limit' depth' state taken rest next ∧ state.Fits limit' depth' := by
  cases state with
  | done rule frames =>
    refine ⟨?_, h.fits_iff.mp hfits⟩
    cases h with
    | negates => exact .negates
    | separates hbefore => exact .separates hbefore
    | closes hbefore => exact .closes hbefore
  | due frames =>
    cases h with
    | opens hbefore hc _ =>
      -- The frame that was opened is the innermost one, and there was room for it.
      rcases Frame.opened?_eq_some_iff.mp hc with ⟨-, rfl⟩ | ⟨kind, -, rfl⟩
      · exact ⟨.opens hbefore hc hfits.1, hfits.2⟩
      · exact ⟨.opens hbefore hc hfits.1, hfits.2⟩
    | tags hbefore htext hafter hrest => exact ⟨.tags hbefore htext hafter hrest, hfits.2⟩
    | names hbefore hinner htext hafter hrest =>
      exact ⟨.names hbefore hinner htext hafter hrest, hfits.2⟩

/-- **A reading depends on the limit and the depth only through the heights it ends with.** -/
theorem Reads.of_fits (h : Reads limit depth start taken rest state)
    (hfits : state.Fits limit' depth') : Reads limit' depth' start taken rest state := by
  induction h with
  | refl => exact .refl
  | tail _ hstep ih =>
    obtain ⟨hstep', hbefore⟩ := hstep.of_fits hfits
    exact .tail (ih hbefore) hstep'

/-! ## One rule -/

/-- **What is taken for a rule is read again as the same rule**, in front of any text before which
it ends and at any depth at which the rule fits. -/
theorem run_local (hdepth : depth ≤ maxDepth)
    (h : run (some maxDepth) depth (.due []) s = .ok (rule, rest)) :
    ∃ taken, taken ≠ [] ∧ s = taken ++ rest ∧ rule.height ≤ maxDepth - depth ∧
      EndsBefore taken rest ∧
      ∀ other, EndsBefore taken other → ∀ around, around + rule.height ≤ maxDepth →
        run (some maxDepth) around (.due []) (taken ++ other) = .ok (rule, other) := by
  obtain ⟨taken, rfl, hreads⟩ := run_eq_ok_iff.mp h
  obtain ⟨hheight, -⟩ := fits_reads hreads (within_some.mpr hdepth)
  have hle : depth + rule.height ≤ maxDepth := within_some.mp hheight
  refine ⟨taken, hreads.ne_nil, rfl, by omega, hreads.endsBefore,
    fun other hother around hroom => ?_⟩
  have hfits : (State.done rule []).Fits (some maxDepth) around :=
    ⟨within_some.mpr hroom, within_some.mpr (Nat.le_of_add_right_le hroom)⟩
  exact run_eq_ok_iff.mpr ⟨taken, rfl, (hreads.congr_done hother).of_fits hfits⟩

/-- What was read at the limit is read again outside of everything, a group in front of any text and
a name in front of a bounded one. -/
theorem run_local_deepest :
    run (some maxDepth) 126 (.due []) " !( a )b".toList =
        .ok (.not (.all [.tagged "a"]), ['b']) ∧
      (∀ other, run (some maxDepth) 0 (.due []) (" !( a )".toList ++ other) =
        .ok (.not (.all [.tagged "a"]), other)) ∧
      run (some maxDepth) 128 (.due []) "\t@ a ,b".toList = .ok (.named "a", [',', 'b']) ∧
      ∀ other, Bounded other → run (some maxDepth) 0 (.due []) ("\t@ a ".toList ++ other) =
        .ok (.named "a", other) := by
  have hgroup : run (some maxDepth) 126 (.due []) " !( a )b".toList =
      .ok (.not (.all [.tagged "a"]), ['b']) := by with_unfolding_all rfl
  have hname : run (some maxDepth) 128 (.due []) "\t@ a ,b".toList =
      .ok (.named "a", [',', 'b']) := by with_unfolding_all rfl
  refine ⟨hgroup, ?_, hname, ?_⟩
  · obtain ⟨taken, -, htext, -, -, hagain⟩ := run_local (by decide) hgroup
    have htaken : " !( a )".toList = taken := List.append_cancel_right htext
    subst htaken
    exact fun other => hagain other (Or.inl (by decide)) 0 (by decide)
  · obtain ⟨taken, -, htext, -, -, hagain⟩ := run_local (by decide) hname
    have htaken : "\t@ a ".toList = taken := List.append_cancel_right htext
    subst htaken
    exact fun other hother => hagain other (Or.inr hother) 0 (by decide)

end Reader

end TagLogic
