import TagLogic.Text.Lines

/-!
# Where a line stands

`Text.lines` cuts a text once, and the numbers come from counting the pieces. Seen from
the text, a line is what stands between the start or a line feed and the next line feed
or the end, and its number is one more than the line feeds before it (`IsLine`). Both are
the same, whatever the lines are used for:

> `isLine_iff`: a line with its number is an entry of `lines` with its index.

The same holds with the insignificant lines left out (`mem_significantLines_iff`), and
what is left comes in the order of the numbers (`significantLines_pairwise`,
`mem_before_iff`). Behind a text of whole lines the numbers go on from its line feeds
(`significantLines_append`).

By these numbers the operation `read_lines` tells which line is faulty.
-/

namespace TagLogic.Text

/-- A line may begin behind the text: nothing stands there, or a line feed ends it. -/
def EndsLine (s : List Char) : Prop := s = [] ∨ ∃ t, s = t ++ ['\n']

/-- The line has this number in the text. -/
inductive IsLine : List Char → Nat → List Char → Prop
  | fed {before body after : List Char} : EndsLine before → '\n' ∉ body →
      IsLine (before ++ (body ++ '\n' :: after)) (before.count '\n' + 1) (dropReturn body)
  | last {before body : List Char} : EndsLine before → '\n' ∉ body → body ≠ [] →
      IsLine (before ++ body) (before.count '\n' + 1) body

/-! ## Lines and their numbers -/

theorem lines_append_of_endsLine {s : List Char} (h : EndsLine s) (t : List Char) :
    lines (s ++ t) = lines s ++ lines t := by
  rcases h with rfl | ⟨u, rfl⟩
  · rfl
  · rw [List.append_assoc]
    exact lines_append u t

/-- A text that ends its last line has as many lines as line feeds. -/
theorem length_lines {s : List Char} (h : EndsLine s) : (lines s).length = s.count '\n' := by
  rcases h with rfl | ⟨t, rfl⟩
  · rfl
  · simp [lines, linesOfPieces, List.splitOn_append_cons_self, length_splitOn]

/-- A whole line in front moves the numbers by one. -/
theorem IsLine.behind {s line body : List Char} {n : Nat} (h : IsLine s n line)
    (hbody : '\n' ∉ body) : IsLine (body ++ '\n' :: s) (n + 1) line := by
  have hends : ∀ before, EndsLine before → EndsLine (body ++ '\n' :: before) := by
    rintro before (rfl | ⟨t, rfl⟩)
    · exact Or.inr ⟨body, rfl⟩
    · exact Or.inr ⟨body ++ '\n' :: t, by simp⟩
  have hcount : ∀ before, (body ++ '\n' :: before).count '\n' = before.count '\n' + 1 := by
    intro before
    rw [List.count_append, List.count_eq_zero_of_not_mem hbody, List.count_cons_self, Nat.zero_add]
  cases h with
  | @fed before line after hbefore hline =>
    have hmore : IsLine ((body ++ '\n' :: before) ++ (line ++ '\n' :: after)) _ _ :=
      .fed (hends before hbefore) hline
    rwa [hcount, List.append_assoc, List.cons_append] at hmore
  | @last before line hbefore hline hne =>
    have hmore := IsLine.last (hends before hbefore) hline hne
    rwa [hcount, List.append_assoc, List.cons_append] at hmore

theorem isLine_of_getElem? {line : List Char} : ∀ (i : Nat) {s : List Char},
    (lines s)[i]? = some line → IsLine s (i + 1) line
  | i, s, h => by
    by_cases hfeed : '\n' ∈ s
    · obtain ⟨body, rest, rfl, hbody⟩ := List.eq_append_cons_of_mem hfeed
      rw [lines_feed hbody] at h
      cases i with
      | zero =>
        cases h
        exact .fed (Or.inl rfl) hbody
      | succ i => exact (isLine_of_getElem? i h).behind hbody
    · by_cases hnil : s = []
      · subst hnil
        cases h
      · rw [lines_last hfeed hnil] at h
        cases i with
        | zero =>
          cases h
          exact .last (Or.inl rfl) hfeed hnil
        | succ i => cases h

/-- **A line with its number is an entry of the list of lines with its index.** -/
theorem isLine_iff {s line : List Char} {n : Nat} :
    IsLine s n line ↔ ∃ i, n = i + 1 ∧ (lines s)[i]? = some line := by
  constructor
  · intro h
    cases h with
    | @fed before body after hbefore hbody =>
      refine ⟨_, rfl, ?_⟩
      rw [lines_append_of_endsLine hbefore, ← length_lines hbefore,
        List.getElem?_append_right (Nat.le_refl _), Nat.sub_self, lines_feed hbody]
      rfl
    | @last before body hbefore hbody hne =>
      refine ⟨_, rfl, ?_⟩
      rw [lines_append_of_endsLine hbefore, ← length_lines hbefore,
        List.getElem?_append_right (Nat.le_refl _), Nat.sub_self, lines_last hbody hne]
      rfl
  · rintro ⟨i, rfl, h⟩
    exact isLine_of_getElem? i h

/-! ## Significant lines -/

theorem mem_significantLines_iff {text entry : String} {n : Nat} :
    (n, entry) ∈ significantLines text ↔
      ∃ line, IsLine text.toList n line ∧ isSignificant line = true ∧ entry = .ofList line := by
  simp only [significantLines, List.mem_map, List.mem_filter, Prod.exists, Prod.mk.injEq,
    List.mk_mem_zipIdx_iff_le_and_getElem?_sub, isLine_iff]
  constructor
  · rintro ⟨line, m, ⟨⟨hm, hline⟩, hsig⟩, rfl, rfl⟩
    exact ⟨line, ⟨m - 1, by omega, hline⟩, hsig, rfl⟩
  · rintro ⟨line, ⟨i, rfl, hline⟩, hsig, rfl⟩
    exact ⟨line, i + 1, ⟨⟨Nat.le_add_left 1 i, hline⟩, hsig⟩, rfl, rfl⟩

theorem significantLines_pairwise (text : String) :
    (significantLines text).Pairwise fun l m => l.1 < m.1 := by
  have hnumbers : ((lines text.toList).zipIdx 1).Pairwise fun l m => l.2 < m.2 := by
    have hrange := List.pairwise_lt_range' (s := 1) (n := (lines text.toList).length)
    rw [← List.zipIdx_map_snd] at hrange
    exact List.pairwise_map.mp hrange
  exact List.pairwise_map.mpr (hnumbers.filter _)

/-- Before a significant line stand those with smaller numbers. -/
theorem mem_before_iff {text : String} {before after : List (Nat × String)} {l m : Nat × String}
    (h : significantLines text = before ++ l :: after) :
    m ∈ before ↔ m ∈ significantLines text ∧ m.1 < l.1 := by
  have hpairwise := significantLines_pairwise text
  rw [h, List.pairwise_append, List.pairwise_cons] at hpairwise
  constructor
  · intro hm
    exact ⟨h ▸ List.mem_append_left _ hm, hpairwise.2.2 m hm l List.mem_cons_self⟩
  · rintro ⟨hm, hlt⟩
    rw [h] at hm
    rcases List.mem_append.mp hm with hm | hm
    · exact hm
    · rcases List.mem_cons.mp hm with rfl | hm
      · exact absurd hlt (Nat.lt_irrefl _)
      · exact absurd hlt (Nat.lt_asymm (hpairwise.2.1.1 m hm))

/-- The numbers aside, the significant lines are those of all lines, in their order. -/
theorem significantLines_map_snd (text : String) :
    (significantLines text).map Prod.snd =
      ((lines text.toList).filter isSignificant).map String.ofList := by
  calc (significantLines text).map Prod.snd
      = ((((lines text.toList).zipIdx 1).map Prod.fst).filter isSignificant).map String.ofList := by
        rw [significantLines, List.map_map, List.filter_map, List.map_map]
        rfl
    _ = ((lines text.toList).filter isSignificant).map String.ofList := by
        rw [List.zipIdx_map_fst]

/-! ## Texts one behind the other -/

/-- **Behind whole lines the numbers go on from their line feeds.** -/
theorem significantLines_append {s : String} (h : EndsLine s.toList) (t : String) :
    significantLines (s ++ t) = significantLines s ++
      (significantLines t).map fun l => (s.toList.count '\n' + l.1, l.2) := by
  unfold significantLines
  rw [String.toList_append, lines_append_of_endsLine h, List.zipIdx_append, length_lines h,
    List.filter_append, List.map_append, Nat.add_comm 1, ← List.map_snd_add_zipIdx_eq_zipIdx,
    List.filter_map, List.map_map, List.map_map]
  refine congrArg (significantLines s ++ ·) (List.map_congr_left fun l _ => ?_)
  simp [Nat.add_comm]

theorem number_pos_of_mem {s : String} {l : Nat × String} (hl : l ∈ significantLines s) :
    0 < l.1 := by
  obtain ⟨line, hline, -, -⟩ := mem_significantLines_iff.mp hl
  obtain ⟨i, hi, -⟩ := isLine_iff.mp hline
  rw [hi]
  exact Nat.succ_pos i

/-- No line of a text of whole lines has a number above the count of line feeds. -/
theorem number_le_of_mem {s : String} (h : EndsLine s.toList) {l : Nat × String}
    (hl : l ∈ significantLines s) : l.1 ≤ s.toList.count '\n' := by
  obtain ⟨line, hline, -, -⟩ := mem_significantLines_iff.mp hl
  obtain ⟨i, hi, hget⟩ := isLine_iff.mp hline
  rw [hi, ← length_lines h]
  exact (List.getElem?_eq_some_iff.mp hget).1

end TagLogic.Text
