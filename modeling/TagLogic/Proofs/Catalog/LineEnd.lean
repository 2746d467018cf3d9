import TagLogic.Catalog.Load

/-!
# Two styles of line ends

A line feed ends a line, and so does a carriage return with a line feed. Which of the two a text
is written in does not show in its lines: the carriage return in front of each line feed goes
with it (`lines_returned`). So it does not matter either what would become of a carriage
return that stayed behind. In a name or a pattern it would be trimmed away, in a rule it would be
part of the last tag.

> `load_withReturns`: a catalog loads the same from texts in the other style.

One carriage return goes with a line feed and no more, so none may stand there already. Anywhere
else it is a character like any other, at the end of a text whose last line is not ended too.

The catalog is loaded by the operation `from_strs`.
-/

namespace TagLogic

open Text (dropReturn lines significantLines)

namespace Text

/-- The characters with a carriage return in front of each line feed. -/
def returned (s : List Char) : List Char :=
  s.flatMap fun c => if c = '\n' then ['\r', '\n'] else [c]

/-- The text with a carriage return in front of each line feed. -/
def withReturns (text : String) : String := .ofList (returned text.toList)

/-- No carriage return stands right before a line feed. -/
def FeedsAlone (s : List Char) : Prop := ¬ ['\r', '\n'] <:+: s

instance (s : List Char) : Decidable (FeedsAlone s) :=
  inferInstanceAs (Decidable (¬ ['\r', '\n'] <:+: s))

theorem returned_of_not_mem {body : List Char} (h : '\n' ∉ body) : returned body = body := by
  induction body with
  | nil => rfl
  | cons c body ih =>
    have hc : c ≠ '\n' := fun heq => h (heq ▸ List.mem_cons_self)
    rw [returned, List.flatMap_cons, if_neg hc]
    exact congrArg (c :: ·) (ih fun hmem => h (List.mem_cons_of_mem c hmem))

theorem returned_append_feed {body : List Char} (h : '\n' ∉ body) (rest : List Char) :
    returned (body ++ '\n' :: rest) = (body ++ ['\r']) ++ '\n' :: returned rest := by
  have hbody := returned_of_not_mem h
  unfold returned at hbody ⊢
  rw [List.flatMap_append, hbody, List.flatMap_cons, if_pos rfl, List.append_assoc]
  rfl

theorem dropReturn_concat (body : List Char) : dropReturn (body ++ ['\r']) = body := by
  rw [dropReturn, if_pos List.getLast?_concat, List.dropLast_concat]

/-- The line before a line feed has no carriage return to lose. -/
theorem FeedsAlone.dropReturn_eq {body rest : List Char} (h : FeedsAlone (body ++ '\n' :: rest)) :
    dropReturn body = body := by
  rw [dropReturn, if_neg]
  intro hlast
  obtain ⟨front, rfl⟩ := List.getLast?_eq_some_iff.mp hlast
  exact h ⟨front, rest, by simp⟩

theorem FeedsAlone.behind {before rest : List Char} (h : FeedsAlone (before ++ rest)) :
    FeedsAlone rest :=
  fun hrest => h (hrest.trans (List.suffix_append before rest).isInfix)

/-- **The lines are the same in both styles.** -/
theorem lines_returned {s : List Char} (h : FeedsAlone s) : lines (returned s) = lines s := by
  by_cases hfeed : '\n' ∈ s
  · obtain ⟨body, rest, rfl, hbody⟩ := List.eq_append_cons_of_mem hfeed
    have hreturn : '\n' ∉ body ++ ['\r'] := by
      simp [hbody]
    have hshorter : rest.length < (body ++ '\n' :: rest).length := by
      simp only [List.length_append, List.length_cons]
      omega
    have hrest : FeedsAlone rest := (List.append_cons body '\n' rest ▸ h).behind
    rw [returned_append_feed hbody, lines_feed hreturn, lines_feed hbody, dropReturn_concat,
      h.dropReturn_eq, lines_returned hrest]
  · rw [returned_of_not_mem hfeed]
termination_by s.length

theorem significantLines_withReturns {text : String} (h : FeedsAlone text.toList) :
    significantLines (withReturns text) = significantLines text := by
  rw [significantLines, withReturns, String.toList_ofList, lines_returned h, significantLines]

end Text

namespace Catalog

open Text (withReturns FeedsAlone)

/-- **A catalog loads the same from texts in the other style of line ends**: the same actors and
facts, or the same error at the same place, and the same events on the way. -/
theorem load_withReturns {actors facts : String} (hactors : FeedsAlone actors.toList)
    (hfacts : FeedsAlone facts.toList) :
    load (withReturns actors) (withReturns facts) = load actors facts := by
  rw [load, Text.significantLines_withReturns hactors,
    Text.significantLines_withReturns hfacts, load]

/-- A carriage return inside a name, at the end of a tag or at the end of the whole text stays what
it is, and an error is told with the same line, offset and character. -/
theorem load_withReturns_inside :
    FeedsAlone "Ka\ra | a\r,b\n#\nPooh\r".toList ∧
      withReturns "Ka\ra | a\r,b\n#\nPooh\r" = "Ka\ra | a\r,b\r\n#\r\nPooh\r" ∧
      (load (withReturns "Ka\ra | a\r,b\n#\nPooh\r") (withReturns "")).value =
        .ok ⟨[⟨"Ka\ra", .ofList ["a", "b"]⟩, .ofName "Pooh"], []⟩ ∧
      (load (withReturns "") (withReturns "%s.\n%s|(\rx)]")).value =
        .error (.line 2 (.badRule ⟨.trailing ']', 4⟩)) := by
  have hactors : FeedsAlone "Ka\ra | a\r,b\n#\nPooh\r".toList := by decide +kernel
  have hfacts : FeedsAlone "%s.\n%s|(\rx)]".toList := by decide +kernel
  have hnone : FeedsAlone "".toList := by decide +kernel
  have hload : (load "Ka\ra | a\r,b\n#\nPooh\r" "").value =
      .ok ⟨[⟨"Ka\ra", .ofList ["a", "b"]⟩, .ofName "Pooh"], []⟩ := by with_unfolding_all rfl
  have hfault : (load "" "%s.\n%s|(\rx)]").value =
      .error (.line 2 (.badRule ⟨.trailing ']', 4⟩)) := by with_unfolding_all rfl
  exact ⟨hactors, by decide, (congrArg Logged.value (load_withReturns hactors hnone)).trans hload,
    (congrArg Logged.value (load_withReturns hnone hfacts)).trans hfault⟩

/-- A line feed takes one carriage return along; a second one would become part of the tag. -/
example : (load "" "%s|a\r\n").value.map (fun c => c.facts.map (·.rule)) = .ok [.tagged "a"] ∧
    (load "" (withReturns "%s|a\r\n")).value.map (fun c => c.facts.map (·.rule)) =
      .ok [.tagged "a\r"] := by
  with_unfolding_all exact ⟨rfl, rfl⟩

end Catalog

end TagLogic
