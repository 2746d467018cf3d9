import TagLogic.Proofs.Catalog.Selection
import TagLogic.Proofs.Pattern.Spelling

/-!
# Facts and their lines

A fact line can be at fault twice, in its rule and in its pattern, and the rule is looked at first:
what is wrong with the pattern is told only where the rule can be read. A fact in turn has many
lines. Its pattern stands in each of them as it is, since it holds no bar and no white space at its
ends, but any white space may follow it, and behind the bar any text will do that is read as
the rule of the fact, bars in it included. The two do not get mixed up because the first bar
is the one that counts.

> `ofLine_outcome`: which lines tell a fact and what is wrong with the others, and that every line
> made from a fact as above tells that fact.

The operation is `from_str`, of a fact, which calls `parse` before `new`.
-/

namespace TagLogic

namespace Fact

open Segment (Paired)
open Text (Trimmed trim isWhite)

variable {before after line : List Char} {f : Fact}

/-! ## The parts of a line -/

theorem ne_bar_of_not_mem (h : '|' ∉ line) : ∀ c ∈ line, decide (c ≠ '|') = true :=
  fun _ hc => decide_eq_true fun heq => h (heq ▸ hc)

theorem patternPart_append_bar (h : '|' ∉ before) (after : List Char) :
    patternPart (before ++ '|' :: after) = before := by
  rw [patternPart, List.takeWhile_append_of_pos (ne_bar_of_not_mem h),
    List.takeWhile_cons_of_neg (by decide), List.append_nil]

theorem rulePart_append_bar (h : '|' ∉ before) (after : List Char) :
    rulePart (before ++ '|' :: after) = Rule.parse (.ofList after) := by
  rw [rulePart, List.dropWhile_append_of_pos (ne_bar_of_not_mem h),
    List.dropWhile_cons_of_neg (by decide)]

theorem patternPart_of_not_mem (h : '|' ∉ line) : patternPart line = line :=
  List.takeWhile_eq_self_iff.mpr (ne_bar_of_not_mem h)

/-- Without a bar the fact goes for everybody. -/
theorem rulePart_of_not_mem (h : '|' ∉ line) : rulePart line = .ok .always := by
  rw [rulePart, List.dropWhile_eq_nil_iff.mpr (ne_bar_of_not_mem h)]

theorem bar_not_mem_patternPart (line : List Char) : '|' ∉ patternPart line := by
  intro hmem
  have hnot := List.all_eq_true.mp List.all_takeWhile '|' hmem
  exact absurd hnot (by decide)

/-! ## Reading a line -/

/-- What comes of a line with this pattern once its rule has been read: a fact if the brackets pair
up, and otherwise an error that shows the pattern. -/
structure Told (pattern : List Char) (rule : Rule) (outcome : Except FormatError Fact) : Prop where
  fact : Paired pattern → ∃ f, outcome = .ok f ∧ f.pattern.text = .ofList pattern ∧ f.rule = rule
  fault : ¬ Paired pattern → outcome = .error (.unbalancedBrackets (.ofList pattern))

theorem told_ofPattern (pattern : List Char) (rule : Rule) :
    Told pattern rule (ofPattern (.ofList pattern) rule) := by
  constructor
  · intro h
    rw [← String.toList_ofList (l := pattern)] at h
    obtain ⟨segments, hsegments⟩ := Segment.exists_segments?_iff.mpr h
    exact ⟨⟨⟨_, segments, hsegments⟩, rule⟩, ofPattern_eq_ok_iff.mpr ⟨rfl, rfl⟩, rfl, rfl⟩
  · intro h
    rw [← String.toList_ofList (l := pattern)] at h
    exact ofPattern_eq_error h rule

/-- A rule that cannot be read is told whatever the pattern is. -/
theorem ofLine_of_rulePart_error {e : SyntaxError} (h : rulePart line = .error e) :
    ofLine (.ofList line) = .error (.badRule e) := by
  rw [ofLine_eq, h]
  rfl

/-- Where the rule can be read, all depends on the pattern. -/
theorem told_of_rulePart_ok {rule : Rule} (h : rulePart line = .ok rule) :
    Told (trim (patternPart line)) rule (ofLine (.ofList line)) := by
  rw [ofLine_eq, h]
  exact told_ofPattern _ rule

/-- The pattern of a fact that was read holds no bar, and is trimmed. -/
theorem pattern_of_ofLine (h : ofLine (.ofList line) = .ok f) :
    '|' ∉ f.pattern.text.toList ∧ Trimmed f.pattern.text.toList := by
  rw [(ofLine_eq_ok_iff.mp h).1, String.toList_ofList]
  refine ⟨fun hbar => ?_, Text.trimmed_trim _⟩
  exact bar_not_mem_patternPart line (Text.mem_of_mem_strip hbar)

/-- **A pattern without a bar and without white space at its ends is read back**, with any white
space behind it and any text of the rule behind the bar. -/
theorem ofLine_append_bar (hbar : '|' ∉ f.pattern.text.toList)
    (htrimmed : Trimmed f.pattern.text.toList) {white rule : String}
    (hwhite : ∀ c ∈ white.toList, isWhite c = true) (hrule : Rule.parse rule = .ok f.rule) :
    ofLine (f.pattern.text ++ white ++ "|" ++ rule) = .ok f := by
  have hbefore : '|' ∉ f.pattern.text.toList ++ white.toList := by
    intro hmem
    rcases List.mem_append.mp hmem with hmem | hmem
    · exact hbar hmem
    · exact absurd (hwhite '|' hmem) (by decide)
  have htrim : trim (f.pattern.text.toList ++ white.toList) = f.pattern.text.toList :=
    Text.strip_between (List.forall_mem_nil _) (Text.trim_eq_self htrimmed) hwhite
  have hline : (f.pattern.text ++ white ++ "|" ++ rule).toList =
      (f.pattern.text.toList ++ white.toList) ++ '|' :: rule.toList := by
    simp only [String.toList_append, List.append_assoc]
    rfl
  have hread :
      ofLine (.ofList ((f.pattern.text.toList ++ white.toList) ++ '|' :: rule.toList)) = .ok f := by
    rw [ofLine_eq_ok_iff, patternPart_append_bar hbefore, rulePart_append_bar hbefore, htrim,
      String.ofList_toList, String.ofList_toList]
    exact ⟨rfl, hrule⟩
  rwa [← hline, String.ofList_toList] at hread

/-- Without a bar the pattern alone is read back, for everybody. -/
theorem ofLine_pattern (hbar : '|' ∉ f.pattern.text.toList)
    (htrimmed : Trimmed f.pattern.text.toList) (hrule : f.rule = .always) :
    ofLine f.pattern.text = .ok f := by
  have hread : ofLine (.ofList f.pattern.text.toList) = .ok f := by
    rw [ofLine_eq_ok_iff, patternPart_of_not_mem hbar, rulePart_of_not_mem hbar,
      Text.trim_eq_self htrimmed, String.ofList_toList, hrule]
    exact ⟨rfl, rfl⟩
  rwa [String.ofList_toList] at hread

/-- **What a fact line tells, and which lines tell a fact.** A rule that cannot be read is told
first; then all depends on the pattern. The pattern of a fact that is told holds no bar and is
trimmed, any white space, a bar and any text of its rule may follow it, and where the line had
no bar, the pattern alone tells the fact. -/
theorem ofLine_outcome (line : String) :
    (∀ before after, line.toList = before ++ '|' :: after → '|' ∉ before →
      (∀ e, Rule.parse (.ofList after) = .error e → ofLine line = .error (.badRule e)) ∧
      ∀ rule, Rule.parse (.ofList after) = .ok rule → Told (trim before) rule (ofLine line)) ∧
    ('|' ∉ line.toList → Told (trim line.toList) .always (ofLine line)) ∧
    ∀ f, ofLine line = .ok f →
      '|' ∉ f.pattern.text.toList ∧ Trimmed f.pattern.text.toList ∧
      (∀ white rule : String, (∀ c ∈ white.toList, isWhite c = true) →
        Rule.parse rule = .ok f.rule →
        ofLine (f.pattern.text ++ white ++ "|" ++ rule) = .ok f) ∧
      ('|' ∉ line.toList → f.rule = .always ∧ ofLine f.pattern.text = .ok f) := by
  obtain ⟨s, rfl⟩ : ∃ s, line = .ofList s := ⟨line.toList, String.ofList_toList.symm⟩
  simp only [String.toList_ofList]
  refine ⟨?_, ?_, ?_⟩
  · rintro before after rfl hbar
    constructor
    · intro e he
      exact ofLine_of_rulePart_error ((rulePart_append_bar hbar after).trans he)
    · intro rule hrule
      have htold := told_of_rulePart_ok ((rulePart_append_bar hbar after).trans hrule)
      rwa [patternPart_append_bar hbar] at htold
  · intro hbar
    have htold := told_of_rulePart_ok (rulePart_of_not_mem hbar)
    rwa [patternPart_of_not_mem hbar] at htold
  · intro f hf
    obtain ⟨hbar, htrimmed⟩ := pattern_of_ofLine hf
    refine ⟨hbar, htrimmed, fun white rule => ofLine_append_bar hbar htrimmed, fun hnobar => ?_⟩
    have hrule : f.rule = .always := by
      have hread := (ofLine_eq_ok_iff.mp hf).2
      rw [rulePart_of_not_mem hnobar] at hread
      exact (Except.ok.inj hread).symm
    exact ⟨hrule, ofLine_pattern hbar htrimmed hrule⟩

/-- A bar in a rule does no harm, nor does white space in front of the first bar that is no blank;
a rule that cannot be read is told before brackets that do not pair up. -/
theorem ofLine_outcome_bar :
    (∃ f, ofLine "\u3000[%s, A]! \t|!x|y" = .ok f ∧ f.pattern.text = "[%s, A]!" ∧
      f.rule = .not (.tagged "x|y") ∧ ofLine "[%s, A]!\u2003\n| ! x|y\t" = .ok f) ∧
    (∃ f, ofLine "\t%s " = .ok f ∧ f.rule = .always ∧ ofLine f.pattern.text = .ok f) ∧
    ofLine " ]%s | a,b" = .error (.badRule ⟨.trailing ',', 2⟩) ∧
    ofLine " ]%s | a" = .error (.unbalancedBrackets "]%s") := by
  refine ⟨?_, ?_, ?_, ?_⟩
  · have hread : Rule.parse "!x|y" = .ok (.not (.tagged "x|y")) := by with_unfolding_all rfl
    have hagain : Rule.parse " ! x|y\t" = .ok (.not (.tagged "x|y")) := by with_unfolding_all rfl
    obtain ⟨hbar, -, hfacts⟩ := ofLine_outcome "\u3000[%s, A]! \t|!x|y"
    have htold := (hbar "\u3000[%s, A]! \t".toList "!x|y".toList rfl (by decide)).2 _ hread
    obtain ⟨f, hf, hpattern, hrule⟩ := htold.fact ⟨1, by decide⟩
    rw [← hrule] at hagain
    have hwhite : ∀ c ∈ "\u2003\n".toList, isWhite c = true := List.all_eq_true.mp rfl
    have hback := (hfacts f hf).2.2.1 "\u2003\n" " ! x|y\t" hwhite hagain
    have htrim : trim "\u3000[%s, A]! \t".toList = "[%s, A]!".toList := by decide
    rw [htrim, String.ofList_toList] at hpattern
    rw [hpattern] at hback
    exact ⟨f, hf, hpattern, hrule, hback⟩
  · obtain ⟨-, hnobar, hfacts⟩ := ofLine_outcome "\t%s "
    obtain ⟨f, hf, -, hrule⟩ := (hnobar (by decide)).fact ⟨0, by decide⟩
    exact ⟨f, hf, (hfacts f hf).2.2.2 (by decide)⟩
  · have hrejected : Rule.parse " a,b" = .error ⟨.trailing ',', 2⟩ := by with_unfolding_all rfl
    have hbar := (ofLine_outcome " ]%s | a,b").1 " ]%s ".toList " a,b".toList rfl (by decide)
    exact hbar.1 _ hrejected
  · have hread : Rule.parse " a" = .ok (.tagged "a") := by with_unfolding_all rfl
    have hbar := (ofLine_outcome " ]%s | a").1 " ]%s ".toList " a".toList rfl (by decide)
    refine (hbar.2 _ hread).fault ?_
    rintro ⟨n, hn⟩
    have hfilter : (trim " ]%s ".toList).filter Segment.isBracket = [']'] := by decide
    rw [hfilter] at hn
    cases n <;> cases hn

end Fact

end TagLogic
