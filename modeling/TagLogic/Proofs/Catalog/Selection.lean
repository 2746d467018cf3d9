import TagLogic.Proofs.Catalog.Loading
import TagLogic.Proofs.Pattern.Slot
import Mathlib.Data.List.Infix

/-!
# From the lines of a text to the facts that are told

Between the text of the facts and what is told about somebody stand the cut at the bar, the
segments of the pattern, the reading of the rule, and the selection. None of them is in
the way of saying it on the lines themselves: a line tells its fact when `%s` stands before
its first bar and the rule behind it goes for the entity.

> `factsAbout_load`: the facts about an entity are those its lines tell, and the questions
> are those the lines with a `%s` ask.

A fact is its pattern's text and its rule (`Pattern.ext_text`), so it is enough to say
these two of each line.

The operation is `facts_about`, of a catalog that `from_strs` has loaded.
-/

namespace TagLogic

/-! ## What a line says -/

namespace Fact

/-- What stands before the first bar, or all of the line. -/
def patternPart (line : List Char) : List Char := line.takeWhile (· ≠ '|')

/-- The rule read behind the first bar; without a bar, the one that always holds. -/
def rulePart (line : List Char) : Except SyntaxError Rule :=
  match line.dropWhile (· ≠ '|') with
  | [] => .ok .always
  | _ :: text => Rule.parse (.ofList text)

/-- What the line tells about the entity: its trimmed pattern and its rule, where the pattern
mentions anybody and the rule holds. -/
def told? (e : Entity) (line : List Char) : Option (String × Rule) :=
  match rulePart line with
  | .ok rule =>
    if Segment.mark <:+: patternPart line ∧ rule.holds e = true then
      some (.ofList (Text.trim (patternPart line)), rule)
    else none
  | .error _ => none

/-- What the entity is asked for the line: nothing where the pattern mentions nobody. -/
def asked (e : Entity) (line : List Char) : List Question :=
  match rulePart line with
  | .ok rule => if Segment.mark <:+: patternPart line then (rule.ask e).asked else []
  | .error _ => []

/-- A line is cut in two at its first bar. -/
theorem splitLine_eq (line : List Char) :
    splitLine (.ofList line) =
      (.ofList (Text.trim (patternPart line)),
        (line.dropWhile (· ≠ '|')).tail?.map .ofList) := by
  have hbar : (fun c : Char => c != '|') = (fun c => decide (c ≠ '|')) := by
    funext c
    rw [bne, decide_not, beq_eq_decide]
  unfold splitLine Text.cutAt
  rw [String.toList_ofList, hbar]
  rfl

theorem ofLine_eq (line : List Char) :
    ofLine (.ofList line) = ofOutcome (.ofList (Text.trim (patternPart line))) (rulePart line) := by
  unfold ofLine rulePart
  rw [splitLine_eq]
  cases line.dropWhile (fun c => decide (c ≠ '|')) <;> rfl

/-- **The fact of a line is the one with its trimmed pattern and its rule.** -/
theorem ofLine_eq_ok_iff {line : List Char} {f : Fact} :
    ofLine (.ofList line) = .ok f ↔
      f.pattern.text = .ofList (Text.trim (patternPart line)) ∧ rulePart line = .ok f.rule := by
  rw [ofLine_eq]
  cases rulePart line with
  | error error => simp [ofOutcome]
  | ok rule => rw [ofOutcome, ofPattern_eq_ok_iff, Except.ok.injEq, @eq_comm _ rule]

variable {e : Entity} {line : List Char} {f : Fact}

/-- The mark is in the line's pattern where the fact has a place for a name. -/
theorem mark_infix_patternPart_iff (h : ofLine (.ofList line) = .ok f) :
    Segment.mark <:+: patternPart line ↔ f.pattern.hasSlot = true := by
  rw [Pattern.hasSlot_iff, (ofLine_eq_ok_iff.mp h).1, String.toList_ofList, Text.trim,
    Text.infix_strip_iff Segment.isWhite_mark]

theorem told?_of_ofLine (h : ofLine (.ofList line) = .ok f) :
    told? e line = if f.appliesTo e then some (f.pattern.text, f.rule) else none := by
  obtain ⟨hpattern, hrule⟩ := ofLine_eq_ok_iff.mp h
  rw [told?, hrule, hpattern]
  simp only [mark_infix_patternPart_iff h, appliesTo_eq, Bool.and_eq_true]

theorem asked_of_ofLine (h : ofLine (.ofList line) = .ok f) :
    asked e line = (f.ask e).asked := by
  rw [asked, (ofLine_eq_ok_iff.mp h).2, ask]
  simp only [mark_infix_patternPart_iff h]
  split <;> rfl

end Fact

/-! ## Selecting -/

namespace Catalog

open Text (isSignificant lines)

theorem factsAbout_map {β : Type} (c : Catalog) (e : Entity) (k : Fact → β) :
    (c.factsAbout e).map k =
      (c.facts.map fun f => if f.appliesTo e then some (k f) else none).filterMap id := by
  rw [factsAbout, List.filterMap_map]
  induction c.facts with
  | nil => rfl
  | cons f fs ih =>
    rw [List.filter_cons, List.filterMap_cons, ← ih]
    by_cases hf : f.appliesTo e = true <;> simp [hf]

/-- **The facts about an entity are those that their lines tell, and nothing is asked but what the
lines ask**, in the order of the lines. -/
theorem factsAbout_load {actors facts : String} {c : Catalog}
    (h : (load actors facts).value = .ok c) (e : Entity) :
    (c.factsAbout e).map (fun f => (f.pattern.text, f.rule)) =
      ((lines facts.toList).filter isSignificant).filterMap (Fact.told? e) ∧
    c.questionsAbout e =
      ((lines facts.toList).filter isSignificant).flatMap (Fact.asked e) := by
  have hreadings : Readings Fact.ofLine facts c.facts := (load_eq_ok_iff.mp h).2
  -- Line by line both sides say the same, so it is left to gather it.
  constructor
  · rw [factsAbout_map, ← hreadings.map_eq fun _ _ => Fact.told?_of_ofLine, List.filterMap_map]
    rfl
  · rw [questionsAbout, List.flatMap_def, List.flatMap_def,
      hreadings.map_eq fun _ _ => Fact.asked_of_ofLine]

/-- One line tells its fact to everybody, one asks and is not for a bear, and one has no place for
a name: its rule is not asked. -/
theorem factsAbout_load_bear :
    ∃ c, (load "" "%s dances.\r\n# %s\n [A, %s]\t|!bear\nBy [%, s]. | big").value = .ok c ∧
      (c.factsAbout ⟨"Baloo", fun _ => true⟩).map (fun f => (f.pattern.text, f.rule)) =
        [("%s dances.", .always)] ∧
      c.questionsAbout ⟨"Baloo", fun _ => true⟩ = [.tag "bear"] := by
  obtain ⟨c, h⟩ : ∃ c,
      (load "" "%s dances.\r\n# %s\n [A, %s]\t|!bear\nBy [%, s]. | big").value = .ok c :=
    ⟨_, by with_unfolding_all rfl⟩
  obtain ⟨hfacts, hquestions⟩ := factsAbout_load h ⟨"Baloo", fun _ => true⟩
  refine ⟨c, h, hfacts.trans ?_, hquestions.trans ?_⟩ <;> with_unfolding_all rfl

end Catalog

end TagLogic
