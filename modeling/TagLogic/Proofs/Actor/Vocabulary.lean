import TagLogic.Proofs.Actor.Line
import TagLogic.Proofs.Rule.Reading
import TagLogic.Rule.Ask

/-!
# Words that lines and rules share

Tags come from two readers that know nothing of each other. The line of an actor is cut at
commas, and any white space is taken off the parts; a rule is cut at its marks, and only spaces
and tabs are taken off. What a rule asks for is found on a line only if both make the same word
of the same text, and they do as long as no mark stands in it and no white space at its ends
but spaces and tabs (`HoldsWord`). Inside, anything may stand: blanks, other white space, a bar.

> `ofLine_shares_words`: an actor read from a line satisfies the rule of such a text exactly
> when its word is one of those on the line, and the rule of its name likewise.

With other white space at the ends the readers go apart: the line takes it off, and in the
rule it is part of the tag.

The two readers are the operations `from_str`, of an actor, and `parse`.
-/

namespace TagLogic

open Text (isWhite strip trim)

theorem isWhite_of_isBlank {c : Char} (h : isBlank c = true) : isWhite c = true := by
  simp only [isBlank, Bool.or_eq_true, beq_iff_eq] at h
  rcases h with rfl | rfl <;> decide

namespace Rule

open Reader (Reads Step)

variable {before text after : List Char}

/-- A token between blanks is read as a tag. -/
theorem parse_token (hbefore : Blanks before) (htext : IsToken text) (hafter : Blanks after) :
    parse (.ofList (before ++ (text ++ after))) = .ok (.tagged (.ofList text)) := by
  have hstep : Step (some maxDepth) 0 (.due []) (before ++ (text ++ after)) [] _ :=
    .tags hbefore htext hafter bounded_nil
  refine parseWithin_eq_ok_iff.mpr ⟨_, [], ?_, .tail .refl hstep, blanks_nil⟩
  rw [String.toList_ofList, List.append_nil, List.nil_append]

/-- Behind the sign of a name it is read as the name. -/
theorem parse_name_token (hbefore : Blanks before) (htext : IsToken text) (hafter : Blanks after) :
    parse (.ofList ('@' :: (before ++ (text ++ after)))) = .ok (.named (.ofList text)) := by
  have hstep : Step (some maxDepth) 0 (.due []) ([] ++ '@' :: (before ++ (text ++ after))) [] _ :=
    .names blanks_nil hbefore htext hafter bounded_nil
  refine parseWithin_eq_ok_iff.mpr ⟨_, [], ?_, .tail .refl hstep, blanks_nil⟩
  rw [String.toList_ofList, List.append_nil, List.nil_append, List.nil_append]

end Rule

/-- Both readers find the same word in the text: no mark stands in it, it shows something, and of
all white space only spaces and tabs stand at its ends. -/
structure HoldsWord (s : List Char) : Prop where
  free : ∀ c ∈ s, isReserved c = false
  shown : ∃ c ∈ s, isWhite c = false
  front : ∀ c ∈ s.takeWhile isWhite, isBlank c = true
  back : ∀ c ∈ s.reverse.takeWhile isWhite, isBlank c = true

instance (s : List Char) : Decidable (HoldsWord s) :=
  decidable_of_iff (s.all (!isReserved ·) = true ∧ s.any (!isWhite ·) = true ∧
      (s.takeWhile isWhite).all isBlank = true ∧
      (s.reverse.takeWhile isWhite).all isBlank = true) <| by
    simp only [List.all_eq_true, List.any_eq_true, Bool.not_eq_true']
    exact ⟨fun h => ⟨h.1, h.2.1, h.2.2.1, h.2.2.2⟩, fun h => ⟨h.free, h.shown, h.front, h.back⟩⟩

namespace HoldsWord

variable {s : List Char} {text : String}

/-- **Both ways of trimming leave the same word.** -/
theorem trim_eq (h : HoldsWord s) : trim s = strip isBlank s :=
  Text.strip_congr (fun _ => isWhite_of_isBlank) h.front h.back

theorem trim_ne_nil (h : HoldsWord s) : trim s ≠ [] := by
  intro hnil
  obtain ⟨c, hc, hshown⟩ := h.shown
  rw [Text.strip_eq_nil_iff.mp hnil c hc] at hshown
  cases hshown

/-! ## The word in a rule -/

/-- The text is its word between blanks, and the word is a token. -/
theorem exists_token (h : HoldsWord s) : ∃ before after, Blanks before ∧ Blanks after ∧
    IsToken (strip isBlank s) ∧ s = before ++ (strip isBlank s ++ after) := by
  rcases exists_token_or_blanks h.free with
    hblank | ⟨before, text, after, heq, hbefore, htext, hafter⟩
  · exact absurd (h.trim_eq.trans (Text.strip_eq_nil_iff.mpr hblank)) h.trim_ne_nil
  · have hstrip : strip isBlank s = text := by
      rw [heq]
      exact strip_token hbefore htext hafter
    rw [hstrip]
    exact ⟨before, after, hbefore, hafter, htext, heq⟩

/-- As a rule the text asks for its word as a tag. -/
theorem parse_eq (h : HoldsWord text.toList) :
    Rule.parse text = .ok (.tagged (.ofList (strip isBlank text.toList))) := by
  obtain ⟨before, after, hbefore, hafter, htoken, heq⟩ := h.exists_token
  have hread := Rule.parse_token hbefore htoken hafter
  rwa [← heq, String.ofList_toList] at hread

/-- Behind the sign of a name it asks for its word as the name. -/
theorem parse_name_eq (h : HoldsWord text.toList) :
    Rule.parse ("@" ++ text) = .ok (.named (.ofList (strip isBlank text.toList))) := by
  obtain ⟨before, after, hbefore, hafter, htoken, heq⟩ := h.exists_token
  have hread := Rule.parse_name_token hbefore htoken hafter
  have hsign : "@" ++ text = .ofList ('@' :: text.toList) := by
    rw [← String.toList_inj, String.toList_append, String.toList_ofList (l := '@' :: text.toList)]
    rfl
  rwa [← heq, ← hsign] at hread

end HoldsWord

namespace Actor

/-! ## The words on a line -/

/-- **The tags behind the bar are the words between the commas.** -/
theorem mem_tagsOfText_iff_word {words : List String} (h : ∀ word ∈ words, HoldsWord word.toList)
    {tag : String} : tag ∈ tagsOfText (",".intercalate words).toList ↔
      ∃ word ∈ words, tag = .ofList (strip isBlank word.toList) := by
  have htext : (",".intercalate words).toList = [','].intercalate (words.map String.toList) :=
    String.toList_intercalate
  rw [mem_tagsOfText_iff, htext]
  by_cases hnil : words = []
  · subst hnil
    simp [trim, strip]
  · have hpieces : ([','].intercalate (words.map String.toList)).splitOn ',' =
        words.map String.toList := by
      refine List.splitOn_intercalate ',' (fun piece hpiece hcomma => ?_)
        (mt List.map_eq_nil_iff.mp hnil)
      obtain ⟨word, hword, rfl⟩ := List.mem_map.mp hpiece
      exact absurd ((h word hword).free ',' hcomma) (by decide)
    rw [hpieces]
    constructor
    · rintro ⟨piece, hpiece, -, rfl⟩
      obtain ⟨word, hword, rfl⟩ := List.mem_map.mp hpiece
      exact ⟨word, hword, congrArg String.ofList (h word hword).trim_eq⟩
    · rintro ⟨word, hword, rfl⟩
      exact ⟨word.toList, List.mem_map_of_mem hword, (h word hword).trim_ne_nil,
        congrArg String.ofList (h word hword).trim_eq.symm⟩

/-- The first bar ends the name, and all behind it is about tags. -/
theorem ofLine_bar {name : String} (hname : trim name.toList ≠ []) (hbar : '|' ∉ name.toList)
    (rest : String) : ofLine (name ++ "|" ++ rest) =
      .ok ⟨.ofList (trim name.toList), .ofList (tagsOfText rest.toList)⟩ := by
  have hline : (name ++ "|" ++ rest).toList = name.toList ++ '|' :: rest.toList := by
    simp only [String.toList_append, List.append_assoc]
    rfl
  rw [ofLine_eq_ok_iff, hline, Text.cutAt_append_cons hbar]
  exact ⟨hname, rfl⟩

/-- A tag is asked for as it stands among the tags. -/
theorem verdict_tagged_iff {a : Actor} {tag : String} :
    ((Rule.tagged tag).ask a.toEntity).verdict = true ↔ tag ∈ a.tags :=
  hasTag_iff

theorem verdict_named_iff {a : Actor} {name : String} :
    ((Rule.named name).ask a.toEntity).verdict = true ↔ a.name = name :=
  decide_eq_true_iff

/-- **An actor satisfies the rule of a text exactly when the word of the text is on its line.** The
words are those the line has between its commas, blanks at the ends aside; and where the name part
holds a word too, the rule of a name is satisfied exactly when its word is that one. -/
theorem ofLine_shares_words {name : String} {words : List String}
    (hname : trim name.toList ≠ []) (hbar : '|' ∉ name.toList)
    (hwords : ∀ word ∈ words, HoldsWord word.toList) :
    ∃ a, ofLine (name ++ "|" ++ ",".intercalate words) = .ok a ∧
      (∀ text : String, HoldsWord text.toList → ∃ rule, Rule.parse text = .ok rule ∧
        ((rule.ask a.toEntity).verdict = true ↔
          ∃ word ∈ words, strip isBlank text.toList = strip isBlank word.toList)) ∧
      (HoldsWord name.toList → ∀ text : String, HoldsWord text.toList →
        ∃ rule, Rule.parse ("@" ++ text) = .ok rule ∧
          ((rule.ask a.toEntity).verdict = true ↔
            strip isBlank text.toList = strip isBlank name.toList)) := by
  refine ⟨_, ofLine_bar hname hbar _, fun text htext => ?_, fun hnameWord text htext => ?_⟩
  · refine ⟨_, htext.parse_eq, ?_⟩
    rw [verdict_tagged_iff, TagSet.mem_ofList, mem_tagsOfText_iff_word hwords]
    simp only [String.ofList_inj]
  · refine ⟨_, htext.parse_name_eq, ?_⟩
    rw [verdict_named_iff, String.ofList_inj, hnameWord.trim_eq, eq_comm]

/-- White space of any kind and a bar may stand inside a word, and there the kind of white space
counts. -/
theorem ofLine_shares_words_inside :
    ∃ a, ofLine "\tBa loo | bear,jungle\u00a0book\t,a|b,x  y" = .ok a ∧
      (∃ rule, Rule.parse "  jungle\u00a0book" = .ok rule ∧
        (rule.ask a.toEntity).verdict = true) ∧
      (∃ rule, Rule.parse "jungle book" = .ok rule ∧ (rule.ask a.toEntity).verdict ≠ true) ∧
      (∃ rule, Rule.parse "a|b\t" = .ok rule ∧ (rule.ask a.toEntity).verdict = true) ∧
      (∃ rule, Rule.parse "@ Ba loo" = .ok rule ∧ (rule.ask a.toEntity).verdict = true) ∧
      ∃ rule, Rule.parse "@Baloo" = .ok rule ∧ (rule.ask a.toEntity).verdict ≠ true := by
  have hfree : '|' ∉ "\tBa loo ".toList := by decide
  have hnameWord : HoldsWord "\tBa loo ".toList := by decide
  have hwords : ∀ word ∈ [" bear", "jungle\u00a0book\t", "a|b", "x  y"],
      HoldsWord word.toList := by decide
  obtain ⟨a, ha, htag, hname⟩ := ofLine_shares_words (by decide) hfree hwords
  obtain ⟨book, hbook, hbookAsked⟩ := htag "  jungle\u00a0book" (by decide)
  obtain ⟨spaced, hspaced, hspacedAsked⟩ := htag "jungle book" (by decide)
  obtain ⟨bar, hbar, hbarAsked⟩ := htag "a|b\t" (by decide)
  obtain ⟨his, hhis, hhisAsked⟩ := hname hnameWord " Ba loo" (by decide)
  obtain ⟨other, hother, hotherAsked⟩ := hname hnameWord "Baloo" (by decide)
  exact ⟨a, ha, ⟨book, hbook, hbookAsked.mpr (by decide)⟩,
    ⟨spaced, hspaced, mt hspacedAsked.mp (by decide)⟩,
    ⟨bar, hbar, hbarAsked.mpr (by decide)⟩,
    ⟨his, hhis, hhisAsked.mpr (by decide)⟩,
    ⟨other, hother, mt hotherAsked.mp (by decide)⟩⟩

/-- At the ends of a tag any white space is taken off the line, and not off the rule. -/
example : tagsOfText "\u00a0bear".toList = ["bear"] ∧
    Rule.parse "\u00a0bear" = .ok (.tagged "\u00a0bear") := by
  with_unfolding_all exact ⟨rfl, rfl⟩

end Actor

end TagLogic
