import TagLogic.Text.Lines

/-!
# Parts with a separator between them

`List.splitOn_intercalate` cuts what was joined, if no part has the separator in it and there
is a part at all. Here is what a joined text holds and how it ends
(`mem_intercalate`, `getLast?_intercalate`), and the same law for lines:

> `lines_intercalate`: parts one below the other are the lines of their text, if each shows
> something and none ends in a carriage return, which would be taken for a part of the line
> end.

In the display form of an actor there is a comma and a space between tags, and lists of
entries have one on each line.
-/

namespace TagLogic.Text

/-- A join holds what the separator or one of the parts holds. -/
theorem mem_intercalate {sep : List Char} {parts : List (List Char)} {c : Char}
    (h : c ∈ sep.intercalate parts) : c ∈ sep ∨ ∃ part ∈ parts, c ∈ part := by
  induction parts with
  | nil => exact absurd h List.not_mem_nil
  | cons part parts ih =>
    by_cases hlast : parts = []
    · rw [hlast, List.intercalate_singleton] at h
      exact Or.inr ⟨part, List.mem_cons_self, h⟩
    · rw [List.intercalate_cons_of_ne_nil hlast, List.append_assoc] at h
      rcases List.mem_append.mp h with hpart | h
      · exact Or.inr ⟨part, List.mem_cons_self, hpart⟩
      · rcases List.mem_append.mp h with hsep | hrest
        · exact Or.inl hsep
        · refine (ih hrest).imp_right fun h => ?_
          obtain ⟨other, hother, hc⟩ := h
          exact ⟨other, List.mem_cons_of_mem part hother, hc⟩

/-- A join holds all that its parts hold. -/
theorem mem_intercalate_of_mem {sep part : List Char} {parts : List (List Char)} {c : Char}
    (hpart : part ∈ parts) (hc : c ∈ part) : c ∈ sep.intercalate parts := by
  induction parts with
  | nil => exact absurd hpart List.not_mem_nil
  | cons first parts ih =>
    by_cases hlast : parts = []
    · rw [hlast, List.mem_singleton] at hpart
      rwa [hlast, List.intercalate_singleton, ← hpart]
    · rw [List.intercalate_cons_of_ne_nil hlast, List.append_assoc]
      rcases List.mem_cons.mp hpart with rfl | hpart
      · exact List.mem_append_left _ hc
      · exact List.mem_append_right _ (List.mem_append_right sep (ih hpart))

/-- A piece holds nothing that the text does not hold. -/
theorem mem_of_mem_piece {sep c : Char} {s piece : List Char} (hpiece : piece ∈ s.splitOn sep)
    (hc : c ∈ piece) : c ∈ s := by
  have hjoin : [sep].intercalate (s.splitOn sep) = s := List.intercalate_splitOn sep
  rw [← hjoin]
  exact mem_intercalate_of_mem hpiece hc

/-- A join of parts that show something ends as one of them does. -/
theorem getLast?_intercalate {sep : List Char} {parts : List (List Char)} {c : Char}
    (hne : ∀ part ∈ parts, part ≠ []) (h : c ∈ (sep.intercalate parts).getLast?) :
    ∃ part ∈ parts, c ∈ part.getLast? := by
  induction parts with
  | nil => exact absurd h (Option.not_mem_none c)
  | cons part parts ih =>
    by_cases hlast : parts = []
    · rw [hlast, List.intercalate_singleton] at h
      exact ⟨part, List.mem_cons_self, h⟩
    · have hrest : sep.intercalate parts ≠ [] := by
        obtain ⟨next, hnext⟩ := List.exists_mem_of_ne_nil parts hlast
        obtain ⟨d, hd⟩ := List.exists_mem_of_ne_nil next
          (hne next (List.mem_cons_of_mem part hnext))
        exact List.ne_nil_of_mem (mem_intercalate_of_mem hnext hd)
      have hend : (sep.intercalate (part :: parts)).getLast? =
          (sep.intercalate parts).getLast? := by
        rw [List.intercalate_cons_of_ne_nil hlast, List.getLast?_append,
          List.getLast?_eq_some_getLast hrest, Option.some_or]
      obtain ⟨other, hother, hc⟩ :=
        ih (fun p hp => hne p (List.mem_cons_of_mem part hp)) (hend ▸ h)
      exact ⟨other, List.mem_cons_of_mem part hother, hc⟩

/-- A character that goes with every separator may as well stand in front of every part. -/
theorem cons_intercalate (sep : List Char) (c : Char) {parts : List (List Char)}
    (hne : parts ≠ []) :
    c :: (sep ++ [c]).intercalate parts = sep.intercalate (parts.map (c :: ·)) := by
  induction parts with
  | nil => exact absurd rfl hne
  | cons part parts ih =>
    by_cases hlast : parts = []
    · simp [hlast]
    · have hmap : parts.map (c :: ·) ≠ [] := mt List.map_eq_nil_iff.mp hlast
      rw [List.map_cons, List.intercalate_cons_of_ne_nil hlast,
        List.intercalate_cons_of_ne_nil hmap, ← ih hlast]
      simp

/-! ## Lines -/

/-- Shows something and ends in no carriage return, so that it is a line as it stands. -/
structure IsBody (body : List Char) : Prop where
  ne_nil : body ≠ []
  not_mem_feed : '\n' ∉ body
  getLast?_ne_return : body.getLast? ≠ some '\r'

theorem IsBody.dropReturn_eq {body : List Char} (h : IsBody body) : dropReturn body = body := by
  unfold dropReturn
  rw [if_neg h.getLast?_ne_return]

/-- **Bodies one below the other are the lines of their text.** -/
theorem lines_intercalate {bodies : List (List Char)} (h : ∀ body ∈ bodies, IsBody body) :
    lines (['\n'].intercalate bodies) = bodies := by
  induction bodies with
  | nil => rfl
  | cons body bodies ih =>
    have hbody : IsBody body := h body List.mem_cons_self
    by_cases hlast : bodies = []
    · rw [hlast, List.intercalate_singleton, lines_last hbody.not_mem_feed hbody.ne_nil]
    · have hrest : lines (['\n'].intercalate bodies) = bodies :=
        ih fun b hb => h b (List.mem_cons_of_mem body hb)
      rw [List.intercalate_cons_of_ne_nil hlast, List.append_assoc, List.singleton_append,
        lines_feed hbody.not_mem_feed, hbody.dropReturn_eq, hrest]

/-- No line has a line feed in it. -/
theorem not_mem_of_mem_lines {s line : List Char} (h : line ∈ lines s) : '\n' ∉ line := by
  intro hfeed
  unfold lines linesOfPieces at h
  rcases List.mem_append.mp h with h | h
  · obtain ⟨piece, hpiece, rfl⟩ := List.mem_map.mp h
    have hnot : '\n' ∉ piece := not_mem_of_mem_splitOn ((List.dropLast_sublist _).mem hpiece)
    unfold dropReturn at hfeed
    split at hfeed
    next => exact hnot ((List.dropLast_sublist _).mem hfeed)
    next => exact hnot hfeed
  · have hlast : line ∈ (s.splitOn '\n').getLast? :=
      Option.mem_toList.mp (List.mem_filter.mp h).1
    exact not_mem_of_mem_splitOn (List.mem_of_getLast? hlast) hfeed

end TagLogic.Text
