import TagLogic.Proofs.Text.Strip
import TagLogic.Rule.Reader

/-!
# Tokens and the blanks around them

What the reader sees of a text is runs of characters that are not reserved, bounded by
characters that are. A run is either blank throughout (`Blanks`) or a token between
blanks (`exists_token_or_blanks`), where a token (`IsToken`) is what may stand as a tag
or as a name: not empty, free of reserved characters, no blank at either end.

`word` reads a run. Both of its outcomes are told here over `before ++ text ++ after`
with `rest` behind it, where `rest` has to be `Bounded`: nothing of the run goes on in it.

- `word_token` — a token between blanks is read, and the blanks with it;
- `word_blanks` — a blank run is no word, and the fault shows before the blanks.

The same run can be cut off in one way only, so everything the reader does between two
reserved characters is settled by these two.

In the grammar, `word` is the production `text`, which `name` and `tag` share.
-/

namespace TagLogic

/-- Spaces and tabs only. -/
def Blanks (s : List Char) : Prop := ∀ c ∈ s, isBlank c = true

/-- No run of text goes on at the start: nothing stands there, or a reserved character. -/
def Bounded (s : List Char) : Prop := ∀ c ∈ s.head?, isReserved c = true

/-- The text may stand as a tag or as a name. -/
structure IsToken (text : List Char) : Prop where
  ne_nil : text ≠ []
  free : ∀ c ∈ text, isReserved c = false
  head : ∀ c ∈ text.head?, isBlank c = false
  last : ∀ c ∈ text.getLast?, isBlank c = false

instance (s : List Char) : Decidable (Blanks s) :=
  decidable_of_iff (s.all isBlank = true) List.all_eq_true

instance (s : List Char) : Decidable (Bounded s) :=
  decidable_of_iff (s.head?.all isReserved = true) (by simp [Bounded, Option.all_eq_true])

instance (text : List Char) : Decidable (IsToken text) :=
  decidable_of_iff (text ≠ [] ∧ text.all (!isReserved ·) = true ∧
      text.head?.all (!isBlank ·) = true ∧ text.getLast?.all (!isBlank ·) = true) <| by
    simp only [List.all_eq_true, Option.all_eq_true, Bool.not_eq_true']
    exact ⟨fun h => ⟨h.1, h.2.1, h.2.2.1, h.2.2.2⟩, fun h => ⟨h.ne_nil, h.free, h.head, h.last⟩⟩

/-! ## Blanks -/

@[simp] theorem blanks_nil : Blanks [] := fun _ h => nomatch h

theorem Blanks.append {s t : List Char} (hs : Blanks s) (ht : Blanks t) : Blanks (s ++ t) := by
  intro c hc
  rcases List.mem_append.mp hc with hc | hc
  · exact hs c hc
  · exact ht c hc

theorem Blanks.free {s : List Char} (h : Blanks s) : ∀ c ∈ s, isReserved c = false :=
  fun c hc => isBlank_not_isReserved (h c hc)

theorem isBlank_eq_false {c : Char} (h : isReserved c = true) : isBlank c = false := by
  cases hc : isBlank c with
  | false => rfl
  | true =>
    rw [isBlank_not_isReserved hc] at h
    cases h

/-- What may stand in a token is none of the marks. -/
theorem ne_of_isReserved {c d : Char} (hc : isReserved c = false) (hd : isReserved d = true) :
    c ≠ d := by
  intro heq
  rw [heq, hd] at hc
  cases hc

/-- The blanks in front are skipped up to the first other character. -/
theorem skipBlanks_append {before : List Char} (h : Blanks before) (s : List Char) :
    skipBlanks (before ++ s) = skipBlanks s :=
  List.dropWhile_append_of_pos h

theorem skipBlanks_cons {c : Char} (h : isBlank c = false) (s : List Char) :
    skipBlanks (c :: s) = c :: s := by
  rw [skipBlanks, List.dropWhile_cons, h]
  rfl

theorem skipBlanks_blanks {s : List Char} (h : Blanks s) : skipBlanks s = [] :=
  List.dropWhile_eq_nil_iff.mpr h

/-- A text is blank or shows a first character behind its blanks. -/
theorem blanks_or_first (s : List Char) :
    Blanks s ∨ ∃ before c rest, s = before ++ c :: rest ∧ Blanks before ∧ isBlank c = false :=
  Text.all_or_first isBlank s

/-! ## Runs of text -/

@[simp] theorem bounded_nil : Bounded [] := fun _ h => nomatch h

theorem bounded_cons {c : Char} (h : isReserved c = true) (s : List Char) : Bounded (c :: s) := by
  intro d hd
  cases hd
  exact h

/-- Where the texts begin with the same character, both are bounded or neither is. -/
theorem Bounded.append {s t u : List Char} (hs : s ≠ []) (h : Bounded (s ++ t)) :
    Bounded (s ++ u) := by
  cases s with
  | nil => exact absurd rfl hs
  | cons c s => exact h

theorem takeWhile_run {run rest : List Char} (hrun : ∀ c ∈ run, isReserved c = false)
    (hrest : Bounded rest) : (run ++ rest).takeWhile (!isReserved ·) = run := by
  have hnone : rest.takeWhile (!isReserved ·) = [] := by
    cases rest with
    | nil => rfl
    | cons c rest => rw [List.takeWhile_cons, hrest c rfl]; rfl
  rw [List.takeWhile_append_of_pos (by simpa using hrun), hnone, List.append_nil]

theorem dropWhile_run {run rest : List Char} (hrun : ∀ c ∈ run, isReserved c = false)
    (hrest : Bounded rest) : (run ++ rest).dropWhile (!isReserved ·) = rest := by
  rw [List.dropWhile_append_of_pos (by simpa using hrun)]
  refine Text.dropWhile_eq_self_iff_head?.mpr fun c hc => ?_
  rw [hrest c hc]
  rfl

/-- Every text is a run followed by a bounded text. -/
theorem exists_run (s : List Char) :
    ∃ run rest, s = run ++ rest ∧ (∀ c ∈ run, isReserved c = false) ∧ Bounded rest := by
  refine ⟨s.takeWhile (!isReserved ·), s.dropWhile (!isReserved ·),
    List.takeWhile_append_dropWhile.symm, ?_, ?_⟩
  · intro c hc
    simpa using List.all_eq_true.mp List.all_takeWhile c hc
  · intro c hc
    have hfirst := Text.dropWhile_eq_self_iff_head?.mp
      (List.dropWhile_idempotent (!isReserved ·) s) c hc
    simpa using hfirst

/-- A run is a token between blanks unless it is blank throughout. -/
theorem exists_token_or_blanks {run : List Char} (h : ∀ c ∈ run, isReserved c = false) :
    Blanks run ∨ ∃ before text after, run = before ++ (text ++ after) ∧
      Blanks before ∧ IsToken text ∧ Blanks after := by
  obtain ⟨before, after, hbefore, hafter, heq⟩ := Text.exists_eq_append_strip isBlank run
  by_cases hnil : Text.strip isBlank run = []
  · exact Or.inl (Text.strip_eq_nil_iff.mp hnil)
  · refine Or.inr ⟨before, Text.strip isBlank run, after, ?_, hbefore, ?_, hafter⟩
    · rw [← List.append_assoc]
      exact heq
    · refine ⟨hnil, fun c hc => h c ?_, Text.head?_strip_not run, Text.getLast?_strip_not run⟩
      rw [heq]
      exact List.mem_append_left after (List.mem_append_right before hc)

/-- Stripping blanks off a token between blanks leaves the token. -/
theorem strip_token {before text after : List Char} (hbefore : Blanks before)
    (htext : IsToken text) (hafter : Blanks after) :
    Text.strip isBlank (before ++ (text ++ after)) = text :=
  Text.strip_between hbefore (Text.strip_eq_self_iff.mpr ⟨htext.head, htext.last⟩) hafter

namespace Reader

/-- **A token between blanks is read, and the blanks with it.** -/
theorem word_token {before text after rest : List Char} (hbefore : Blanks before)
    (htext : IsToken text) (hafter : Blanks after) (hrest : Bounded rest) :
    word (before ++ (text ++ after) ++ rest) = .ok (String.ofList text, rest) := by
  have hrun : ∀ c ∈ before ++ (text ++ after), isReserved c = false := by
    intro c hc
    rcases List.mem_append.mp hc with hc | hc
    · exact hbefore.free c hc
    · rcases List.mem_append.mp hc with hc | hc
      · exact htext.free c hc
      · exact hafter.free c hc
  unfold word
  rw [takeWhile_run hrun hrest, dropWhile_run hrun hrest, strip_token hbefore htext hafter]
  cases text with
  | nil => exact absurd rfl htext.ne_nil
  | cons c text => rfl

/-- **A blank run is no word; the fault shows before the blanks.** -/
theorem word_blanks {before rest : List Char} (hbefore : Blanks before) (hrest : Bounded rest) :
    word (before ++ rest) = .error ⟨.noText, before ++ rest⟩ := by
  unfold word
  rw [takeWhile_run hbefore.free hrest, Text.strip_eq_nil_iff.mpr hbefore]

end Reader

end TagLogic
