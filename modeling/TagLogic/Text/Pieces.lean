/-!
# Cutting a text at separators

Three ways to cut: at the first occurrence of a character (`cutAt`), at every
occurrence (`List.splitOn`), and at every occurrence of a two-character mark
(`piecesAround`). `List.splitOn` comes with the laws by which its pieces go back
together. Two more are used here, and the third is the law of the mark:

- `length_splitOn` — there is one piece more than separators;
- `not_mem_of_mem_splitOn` — no piece has the separator in it;
- `intercalate_piecesAround` — the pieces with the mark between them are the text.

The operation `from_str` cuts a line at the first bar (`cutAt`) and tags at commas,
`segments` cuts choices at commas; `push_text`, `has_placeholder` and `render_with` look
for `%s` (`piecesAround`). On purpose marks are found from the right, along the list.
For a mark of two different characters that gives the same pieces as finding them from
the left, since two such marks never overlap.
-/

namespace TagLogic.Text

/-! ## The first occurrence -/

/-- The part before the first occurrence of a character and, if there is one, the part after it. -/
def cutAt (sep : Char) (s : List Char) : List Char × Option (List Char) :=
  (s.takeWhile (· != sep), (s.dropWhile (· != sep)).tail?)

/-- Without the character the whole text comes before. -/
theorem cutAt_of_not_mem {sep : Char} {s : List Char} (h : sep ∉ s) : cutAt sep s = (s, none) := by
  induction s with
  | nil => rfl
  | cons c s ih =>
    have hne : c ≠ sep := fun e => h (e ▸ List.mem_cons_self)
    have hcut := ih fun hs => h (List.mem_cons_of_mem c hs)
    simp only [cutAt, Prod.mk.injEq] at hcut
    simp [cutAt, hne, hcut.1, hcut.2]

/-- The first occurrence ends the part before it. -/
theorem cutAt_append_cons {sep : Char} {before : List Char} (h : sep ∉ before)
    (after : List Char) : cutAt sep (before ++ sep :: after) = (before, some after) := by
  induction before with
  | nil => simp [cutAt]
  | cons c s ih =>
    have hne : c ≠ sep := fun e => h (e ▸ List.mem_cons_self)
    have hcut := ih fun hs => h (List.mem_cons_of_mem c hs)
    simp only [cutAt, Prod.mk.injEq] at hcut
    simp [cutAt, hne, hcut.1, hcut.2]

/-! ## Every occurrence of a character -/

/-- There is one piece more than separators. -/
theorem length_splitOn (sep : Char) (s : List Char) :
    (s.splitOn sep).length = s.count sep + 1 := by
  induction s with
  | nil => rfl
  | cons c s ih =>
    rw [List.splitOn_cons_eq_if_modifyHead]
    split
    next heq => rw [List.length_cons, ih, eq_of_beq heq, List.count_cons_self]
    next hne => rw [List.length_modifyHead, ih, List.count_cons_of_ne (mt beq_iff_eq.mpr hne)]

theorem not_mem_of_mem_splitOn {sep : Char} {s piece : List Char} (h : piece ∈ s.splitOn sep) :
    sep ∉ piece := by
  induction s generalizing piece with
  | nil => simp_all
  | cons c s ih =>
    rw [List.splitOn_cons_eq_if_modifyHead] at h
    split at h
    next =>
      rcases List.mem_cons.mp h with rfl | h
      · exact List.not_mem_nil
      · exact ih h
    next hne =>
      obtain ⟨p, ps, hps⟩ := List.exists_cons_of_ne_nil (List.splitOn_ne_nil sep s)
      rw [hps, List.modifyHead_cons] at h
      rcases List.mem_cons.mp h with rfl | h
      · have hp : sep ∉ p := ih (hps ▸ List.mem_cons_self)
        exact List.not_mem_cons_of_ne_of_not_mem (fun e => hne (beq_iff_eq.mpr e.symm)) hp
      · exact ih (hps ▸ List.mem_cons_of_mem p h)

/-! ## Every occurrence of a mark of two characters -/

/-- Reading from the right, `c` stands before a text whose pieces are `ps`: with `b` next, `a` and
`b` make a mark. -/
def consAround (a b c : Char) : List (List Char) → List (List Char)
  | (d :: piece) :: more =>
    if c = a ∧ d = b then [] :: piece :: more else (c :: d :: piece) :: more
  | ps => ps.modifyHead (c :: ·)

/-- The pieces of a text between the occurrences of the mark `a b`, where `a` is not `b`. -/
def piecesAround (a b : Char) (s : List Char) : List (List Char) :=
  s.foldr (consAround a b) [[]]

@[simp] theorem piecesAround_nil (a b : Char) : piecesAround a b [] = [[]] := rfl

theorem piecesAround_cons (a b c : Char) (s : List Char) :
    piecesAround a b (c :: s) = consAround a b c (piecesAround a b s) := rfl

theorem consAround_ne_nil (a b c : Char) {ps : List (List Char)} (h : ps ≠ []) :
    consAround a b c ps ≠ [] := by
  unfold consAround
  split
  · split <;> simp
  · exact mt List.modifyHead_eq_nil_iff.mp h

theorem piecesAround_ne_nil (a b : Char) (s : List Char) : piecesAround a b s ≠ [] := by
  induction s with
  | nil => simp
  | cons c s ih => exact consAround_ne_nil a b c ih

/-- **The pieces with the mark between them are the text.** -/
theorem intercalate_piecesAround (a b : Char) (s : List Char) :
    [a, b].intercalate (piecesAround a b s) = s := by
  induction s with
  | nil => rfl
  | cons c s ih =>
    rw [piecesAround_cons]
    unfold consAround
    split
    next d piece more heq =>
      rw [heq] at ih
      split
      next hmark =>
        rw [List.intercalate_cons_cons, hmark.1, ← ih, List.intercalate_cons_cons_left, hmark.2]
        rfl
      next => rw [List.intercalate_cons_cons_left, ih]
    next =>
      obtain ⟨p, ps, hps⟩ := List.exists_cons_of_ne_nil (piecesAround_ne_nil a b s)
      rw [hps, List.modifyHead_cons, List.intercalate_cons_cons_left, ← hps, ih]

end TagLogic.Text
