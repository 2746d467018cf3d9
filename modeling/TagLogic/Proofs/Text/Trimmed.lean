import TagLogic.Proofs.Text.Strip

/-!
# Trimmed texts

`trim` takes the white space off both ends of a text. What it leaves can be told without it: a
text with no white space at its ends, between which and the given text nothing but white space
is missing.

> `trimsTo_iff`: there is exactly one such text.

Two classes of blanks, one within the other, leave the same text where only the narrower one
stands at the ends (`strip_congr`).

The wider class is that of `from_str` and the narrower one that of the grammar.
-/

namespace TagLogic.Text

/-- No white space stands at either end of the text. -/
def Trimmed (s : List Char) : Prop :=
  (∀ c ∈ s.head?, isWhite c = false) ∧ ∀ c ∈ s.getLast?, isWhite c = false

instance (s : List Char) : Decidable (Trimmed s) :=
  decidable_of_iff
    (s.head?.all (!isWhite ·) = true ∧ s.getLast?.all (!isWhite ·) = true) <| by
      simp only [Trimmed, Option.all_eq_true, Bool.not_eq_true', Option.mem_def]

theorem isWhite_space : isWhite ' ' = true := rfl

theorem trimmed_trim (s : List Char) : Trimmed (trim s) :=
  ⟨head?_strip_not s, getLast?_strip_not s⟩

theorem trim_eq_self {s : List Char} (h : Trimmed s) : trim s = s := strip_eq_self_iff.mpr h

/-- The second text is the first without the white space at its ends. -/
def TrimsTo (s t : List Char) : Prop :=
  Trimmed t ∧ ∃ before after, (∀ c ∈ before, isWhite c = true) ∧ (∀ c ∈ after, isWhite c = true) ∧
    s = before ++ (t ++ after)

/-- **There is exactly one text without the white space at the ends.** -/
theorem trimsTo_iff {s t : List Char} : TrimsTo s t ↔ t = trim s := by
  constructor
  · intro h
    obtain ⟨ht, before, after, hbefore, hafter, rfl⟩ := h
    exact (strip_between hbefore (trim_eq_self ht) hafter).symm
  · rintro rfl
    obtain ⟨before, after, hbefore, hafter, heq⟩ := exists_eq_append_strip isWhite s
    rw [List.append_assoc] at heq
    exact ⟨trimmed_trim s, before, after, hbefore, hafter, heq⟩

/-! ## Two classes of blanks -/

section

variable {p q : Char → Bool} {s : List Char}

/-- Where only the narrower class stands in front, both take off the same. -/
theorem dropWhile_congr (hqp : ∀ c, q c = true → p c = true)
    (h : ∀ c ∈ s.takeWhile p, q c = true) : s.dropWhile p = s.dropWhile q := by
  induction s with
  | nil => rfl
  | cons c s ih =>
    by_cases hp : p c = true
    · rw [List.takeWhile_cons_of_pos hp] at h
      have hrest := ih fun d hd => h d (List.mem_cons_of_mem c hd)
      rw [List.dropWhile_cons_of_pos hp, List.dropWhile_cons_of_pos (h c List.mem_cons_self), hrest]
    · rw [List.dropWhile_cons_of_neg hp, List.dropWhile_cons_of_neg fun hq => hp (hqp c hq)]

theorem mem_takeWhile_append {t : List Char} {c : Char} (h : c ∈ s.takeWhile p) :
    c ∈ (s ++ t).takeWhile p := by
  rw [List.takeWhile_append]
  split
  · exact List.mem_append_left _ ((List.takeWhile_sublist p).mem h)
  · exact h

/-- **Where only the narrower class stands at the ends, both leave the same text.** -/
theorem strip_congr (hqp : ∀ c, q c = true → p c = true)
    (hfront : ∀ c ∈ s.takeWhile p, q c = true)
    (hback : ∀ c ∈ s.reverse.takeWhile p, q c = true) : strip p s = strip q s := by
  -- What is taken off the front leaves the end as it is, or nothing at all.
  have hend : ∀ c ∈ (s.dropWhile p).reverse.takeWhile p, q c = true := by
    intro c hc
    refine hback c ?_
    rw [← List.takeWhile_append_dropWhile (p := p) (l := s), List.reverse_append]
    exact mem_takeWhile_append hc
  unfold strip
  rw [dropWhile_congr hqp hend, dropWhile_congr hqp hfront]

end

end TagLogic.Text
