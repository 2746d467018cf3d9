import TagLogic.Proofs.Pattern.Filling
import TagLogic.Proofs.Text.Trimmed
import Mathlib.Data.List.Chain
import Mathlib.Data.List.Forall2

/-!
# Which texts are patterns, and what their segments spell

A text is a pattern when its brackets, read in order, open and close one choice after the other
(`Paired`); nothing else in it matters. Its segments are the text again: written one behind
the other they spell it, but for the white space around the pieces of a choice (`Tidied`). And
they are cut as finely as can be. No text among them is empty or holds a bracket or a mark, no
piece of a choice holds a comma or a bracket (`Proper`), and no two texts stand side by side
(`Beside`).

Each of these goes by induction along `Segmented`, from one lemma about text without brackets
and one about the text inside of a pair.

> `ofPattern_outcome`: which texts make a fact, what is told of the others, and what the
> segments of a fact spell.

The operation is `new`, which has its segments from `segments`.
-/

namespace TagLogic

open Text (TrimsTo trim)

namespace Segment

/-! ## Brackets -/

/-- The brackets of the text, read in order, open and close one choice after the other. -/
def Paired (s : List Char) : Prop :=
  ∃ n, s.filter isBracket = (List.replicate n ['[', ']']).flatten

theorem flat_iff {s : List Char} : Flat s ↔ s.filter isBracket = [] := by
  unfold Flat
  simp only [List.filter_eq_nil_iff, Bool.not_eq_true]

theorem paired_of_segmented {s : List Char} {segments : List Segment}
    (h : Segmented s segments) : Paired s := by
  induction h with
  | flat hflat => exact ⟨0, flat_iff.mp hflat⟩
  | @pair before inside after rest hbefore hinside _ ih =>
    obtain ⟨n, hn⟩ := ih
    refine ⟨n + 1, ?_⟩
    have hopen : isBracket '[' = true := rfl
    have hclose : isBracket ']' = true := rfl
    rw [List.filter_append, flat_iff.mp hbefore, List.filter_cons_of_pos hopen,
      List.filter_append, flat_iff.mp hinside, List.filter_cons_of_pos hclose, hn]
    rfl

/-- The first pair of brackets is followed by the others. -/
theorem exists_segmented_of_paired {s : List Char} (h : Paired s) :
    ∃ segments, Segmented s segments := by
  obtain ⟨n, hn⟩ := h
  induction n generalizing s with
  | zero => exact ⟨ofFlat s, .flat (flat_iff.mpr hn)⟩
  | succ n ih =>
    -- What the filter dropped before a bracket it kept is text without brackets.
    obtain ⟨before, rest, rfl, hbefore, -, hrest⟩ := List.filter_eq_cons_iff.mp hn
    obtain ⟨inside, after, rfl, hinside, -, hafter⟩ := List.filter_eq_cons_iff.mp hrest
    obtain ⟨segments, hsegments⟩ := ih hafter
    have hflat : Flat before := fun c hc => Bool.eq_false_iff.mpr (hbefore c hc)
    have hflat' : Flat inside := fun c hc => Bool.eq_false_iff.mpr (hinside c hc)
    exact ⟨_, .pair hflat hflat' hsegments⟩

/-- **A text is segmented exactly when its brackets come pair by pair.** -/
theorem exists_segments?_iff {s : List Char} :
    (∃ segments, segments? s = some segments) ↔ Paired s := by
  simp only [segments?_eq_some_iff]
  constructor
  · intro h
    obtain ⟨segments, hsegments⟩ := h
    exact paired_of_segmented hsegments
  · exact exists_segmented_of_paired

/-! ## Spelling -/

/-- The second text is the first without the white space around the pieces between brackets. -/
inductive Tidied : List Char → List Char → Prop
  | flat {s : List Char} : Flat s → Tidied s s
  | pair {before after rest : List Char} {raw bare : List (List Char)} :
      Flat before → raw ≠ [] → (∀ piece ∈ raw, ',' ∉ piece ∧ Flat piece) →
      List.Forall₂ TrimsTo raw bare → Tidied after rest →
      Tidied (before ++ '[' :: ([','].intercalate raw ++ ']' :: after))
        (before ++ '[' :: ([','].intercalate bare ++ ']' :: rest))

theorem written_ofText (s : List Char) : (ofText s).flatMap written = s := by
  unfold ofText
  split
  next h => rw [h]; rfl
  next => simp [written]

/-- Slots are written as marks. -/
theorem written_slotted (ps : List (List Char)) :
    (slotted ps).flatMap written = mark.intercalate ps := by
  induction ps with
  | nil => rfl
  | cons p ps ih =>
    by_cases hlast : ps = []
    · subst hlast
      rw [slotted_singleton, written_ofText, List.intercalate_singleton]
    · rw [slotted_cons p hlast, List.intercalate_cons_of_ne_nil hlast, List.append_assoc,
        List.flatMap_append, written_ofText, List.flatMap_cons, ih]
      rfl

/-- Text without brackets is spelled as it was. -/
theorem written_ofFlat (s : List Char) : (ofFlat s).flatMap written = s := by
  rw [ofFlat_eq_slotted, written_slotted]
  exact Text.intercalate_piecesAround '%' 's' s

/-- The pieces of a choice are written with commas between them, each trimmed. -/
theorem written_ofInside (s : List Char) :
    (ofInside s).written = '[' :: [','].intercalate ((s.splitOn ',').map trim) ++ [']'] := by
  obtain ⟨first, others, hpieces, hchoice⟩ := ofInside_eq s
  have hmap : (first :: others).map String.toList = (s.splitOn ',').map trim := by
    rw [← hpieces, Bracketing.piecesInside, List.map_map]
    exact List.map_congr_left fun piece _ => String.toList_ofList
  rw [hchoice, written, hmap]

/-- **The segments spell the text**, but for white space around the pieces of choices. -/
theorem tidied_of_segmented {s : List Char} {segments : List Segment} (h : Segmented s segments) :
    Tidied s (segments.flatMap written) := by
  induction h with
  | flat hflat =>
    rw [written_ofFlat]
    exact .flat hflat
  | @pair before inside after rest hbefore hinside _ ih =>
    have htrim : List.Forall₂ TrimsTo (inside.splitOn ',') ((inside.splitOn ',').map trim) :=
      List.forall₂_map_right_iff.mpr (List.forall₂_same.mpr fun _ _ => Text.trimsTo_iff.mpr rfl)
    have hpieces : ∀ piece ∈ inside.splitOn ',', ',' ∉ piece ∧ Flat piece := by
      intro piece hpiece
      exact ⟨Text.not_mem_of_mem_splitOn hpiece,
        fun c hc => hinside c (Text.mem_of_mem_piece hpiece hc)⟩
    have hpair := Tidied.pair hbefore (List.splitOn_ne_nil ',' inside) hpieces htrim ih
    -- The pieces between commas are the text inside of the brackets.
    rw [List.intercalate_splitOn] at hpair
    rw [List.flatMap_append, written_ofFlat, List.flatMap_cons, written_ofInside,
      List.append_assoc, List.cons_append]
    exact hpair

/-! ## How finely it is cut -/

/-- The segment cannot be cut further: a text shows something and holds neither a bracket nor a
mark, and no piece of a choice holds a comma or a bracket. That there is a piece is part of what a
choice is. -/
def Proper : Segment → Prop
  | .text s => s ≠ "" ∧ Flat s.toList ∧ ¬ mark <:+: s.toList
  | .slot => True
  | .choice first others => ∀ piece ∈ first :: others, ',' ∉ piece.toList ∧ Flat piece.toList

theorem proper_ofText {s : List Char} (hflat : Flat s) (hmark : ¬ mark <:+: s) :
    ∀ segment ∈ ofText s, segment.Proper := by
  unfold ofText
  split
  next => exact List.forall_mem_nil _
  next hne =>
    show ∀ segment ∈ [Segment.text (.ofList s)], segment.Proper
    rw [List.forall_mem_singleton]
    show String.ofList s ≠ "" ∧ Flat (String.ofList s).toList ∧ ¬ mark <:+: (String.ofList s).toList
    rw [String.toList_ofList]
    exact ⟨mt String.ofList_eq_empty_iff.mp hne, hflat, hmark⟩

theorem proper_slotted {ps : List (List Char)} (h : ∀ p ∈ ps, Flat p ∧ ¬ mark <:+: p) :
    ∀ segment ∈ slotted ps, segment.Proper := by
  induction ps with
  | nil => exact List.forall_mem_nil _
  | cons p ps ih =>
    obtain ⟨⟨hflat, hmark⟩, hrest⟩ := List.forall_mem_cons.mp h
    by_cases hlast : ps = []
    · subst hlast
      rw [slotted_singleton]
      exact proper_ofText hflat hmark
    · rw [slotted_cons p hlast]
      exact List.forall_mem_append.mpr
        ⟨proper_ofText hflat hmark, List.forall_mem_cons.mpr ⟨trivial, ih hrest⟩⟩

theorem proper_ofFlat {s : List Char} (h : Flat s) : ∀ segment ∈ ofFlat s, segment.Proper := by
  rw [ofFlat_eq_slotted]
  refine proper_slotted ?_
  intro p hp
  have hsub : ∀ c ∈ p, c ∈ s := by
    intro c hc
    rw [← Text.intercalate_piecesAround '%' 's' s]
    exact Text.mem_intercalate_of_mem hp hc
  exact ⟨fun c hc => h c (hsub c hc), Text.not_mark_infix_of_mem hp⟩

theorem proper_ofInside {s : List Char} (h : Flat s) : (ofInside s).Proper := by
  obtain ⟨first, others, hpieces, hchoice⟩ := ofInside_eq s
  rw [hchoice]
  show ∀ piece ∈ first :: others, ',' ∉ piece.toList ∧ Flat piece.toList
  intro piece hpiece
  rw [← hpieces] at hpiece
  obtain ⟨raw, hraw, rfl⟩ := List.mem_map.mp hpiece
  rw [String.toList_ofList]
  constructor
  · intro hcomma
    exact Text.not_mem_of_mem_splitOn hraw (Text.mem_of_mem_strip hcomma)
  · intro c hc
    exact h c (Text.mem_of_mem_piece hraw (Text.mem_of_mem_strip hc))

theorem proper_of_segmented {s : List Char} {segments : List Segment} (h : Segmented s segments) :
    ∀ segment ∈ segments, segment.Proper := by
  induction h with
  | flat hflat => exact proper_ofFlat hflat
  | pair hbefore hinside _ ih =>
    exact List.forall_mem_append.mpr
      ⟨proper_ofFlat hbefore, List.forall_mem_cons.mpr ⟨proper_ofInside hinside, ih⟩⟩

/-- The two segments may stand side by side: they are not both text. -/
def Beside : Segment → Segment → Prop
  | .text _, .text _ => False
  | _, _ => True

theorem beside_slot (segment : Segment) : segment.Beside .slot := by
  cases segment <;> trivial

theorem beside_ofInside (segment : Segment) (s : List Char) : segment.Beside (ofInside s) := by
  obtain ⟨first, others, -, hchoice⟩ := ofInside_eq s
  rw [hchoice]
  cases segment <;> trivial

theorem ofInside_beside (s : List Char) (segment : Segment) : (ofInside s).Beside segment := by
  obtain ⟨first, others, -, hchoice⟩ := ofInside_eq s
  rw [hchoice]
  trivial

theorem isChain_ofText (s : List Char) : (ofText s).IsChain Beside := by
  unfold ofText
  split
  next => exact .nil
  next => exact .singleton _

theorem isChain_slotted (ps : List (List Char)) : (slotted ps).IsChain Beside := by
  induction ps with
  | nil => exact .nil
  | cons p ps ih =>
    by_cases hlast : ps = []
    · subst hlast
      rw [slotted_singleton]
      exact isChain_ofText p
    · rw [slotted_cons p hlast]
      refine (isChain_ofText p).append (ih.cons fun _ _ => trivial) ?_
      intro segment _ next hnext
      obtain rfl : .slot = next := Option.some.inj hnext
      exact beside_slot segment

/-- **No two texts stand side by side.** -/
theorem isChain_of_segmented {s : List Char} {segments : List Segment} (h : Segmented s segments) :
    segments.IsChain Beside := by
  induction h with
  | @flat s _ => exact isChain_slotted (aroundSlots s)
  | @pair before inside after rest _ _ _ ih =>
    refine (isChain_slotted (aroundSlots before)).append
      (ih.cons fun next _ => ofInside_beside inside next) ?_
    intro segment _ next hnext
    obtain rfl : ofInside inside = next := Option.some.inj hnext
    exact beside_ofInside segment inside

end Segment

namespace Fact

open Segment (Beside Paired Tidied written)

theorem ofPattern_eq_error {text : String} (h : ¬ Paired text.toList) (rule : Rule) :
    ofPattern text rule = .error (.unbalancedBrackets text) := by
  have hnone : Segment.segments? text.toList = none := by
    refine Option.eq_none_iff_forall_ne_some.mpr ?_
    intro segments hsome
    exact h (Segment.exists_segments?_iff.mp ⟨segments, hsome⟩)
  unfold ofPattern
  rw [Pattern.ofText?_eq_none_iff.mpr hnone]

/-- **A text makes a fact exactly when its brackets come pair by pair**, and is named in the error
otherwise. The segments of the fact spell the text but for the white space around the pieces of
choices, and they are cut as finely as can be. -/
theorem ofPattern_outcome (text : String) (rule : Rule) :
    ((∃ f, ofPattern text rule = .ok f) ↔ Paired text.toList) ∧
    (¬ Paired text.toList → ofPattern text rule = .error (.unbalancedBrackets text)) ∧
    ∀ f, ofPattern text rule = .ok f →
      f.pattern.text = text ∧ f.rule = rule ∧
      Tidied text.toList (f.pattern.segments.flatMap written) ∧
      (∀ segment ∈ f.pattern.segments, segment.Proper) ∧
      f.pattern.segments.IsChain Beside := by
  have hread : ∀ f, ofPattern text rule = .ok f →
      Segment.Segmented text.toList f.pattern.segments := by
    intro f hf
    rw [← (ofPattern_eq_ok_iff.mp hf).1]
    exact Segment.segments?_eq_some_iff.mp f.pattern.segments?_text
  refine ⟨⟨?_, ?_⟩, fun h => ofPattern_eq_error h rule, ?_⟩
  · intro h
    obtain ⟨f, hf⟩ := h
    exact Segment.paired_of_segmented (hread f hf)
  · intro h
    obtain ⟨segments, hsegments⟩ := Segment.exists_segments?_iff.mpr h
    exact ⟨⟨⟨text, segments, hsegments⟩, rule⟩, ofPattern_eq_ok_iff.mpr ⟨rfl, rfl⟩⟩
  · intro f hf
    obtain ⟨htext, hrule⟩ := ofPattern_eq_ok_iff.mp hf
    exact ⟨htext, hrule, Segment.tidied_of_segmented (hread f hf),
      Segment.proper_of_segmented (hread f hf), Segment.isChain_of_segmented (hread f hf)⟩

/-- A stray `%` stays in a text, white space goes from the ends of the pieces only, and a piece may
be empty; brackets the wrong way round are refused. -/
theorem ofPattern_outcome_stray :
    (∃ f, ofPattern " %%s[ a b,\t][] %" .always = .ok f ∧
      f.pattern.segments = [.text " %", .slot, .choice "a b" [""], .choice "" [], .text " %"] ∧
      Tidied " %%s[ a b,\t][] %".toList " %%s[a b,][] %".toList) ∧
    ofPattern "] %s [" .always = .error (.unbalancedBrackets "] %s [") := by
  have hsegments : Segment.segments? " %%s[ a b,\t][] %".toList =
      some [.text " %", .slot, .choice "a b" [""], .choice "" [], .text " %"] := by
    with_unfolding_all rfl
  let f : Fact := ⟨⟨" %%s[ a b,\t][] %", _, hsegments⟩, .always⟩
  have hf : ofPattern " %%s[ a b,\t][] %" .always = .ok f := ofPattern_eq_ok_iff.mpr ⟨rfl, rfl⟩
  refine ⟨⟨f, hf, rfl, ((ofPattern_outcome _ .always).2.2 f hf).2.2.1⟩, ?_⟩
  refine (ofPattern_outcome "] %s [" .always).2.1 fun h => ?_
  obtain ⟨n, hn⟩ := h
  have hfilter : "] %s [".toList.filter Segment.isBracket = [']', '['] := by decide
  rw [hfilter] at hn
  cases n <;> cases hn

end Fact

end TagLogic
