import TagLogic.Proofs.Text.Strip
import TagLogic.Text.Pieces

/-!
# What a text holds

A text holds a mark when the mark stands somewhere in it without a gap (`<:+:`). Cutting a
text at characters that are not in the mark neither breaks a mark nor makes one:

- `infix_append_cons_iff` — a mark is on one side of such a character;
- `infix_splitOn_iff` — or in one of the pieces between all of them;
- `infix_strip_iff` — or in what is left when such characters are stripped off the ends.

Cutting at the mark itself leaves pieces without it, so a text holds the mark exactly when
it is cut (`one_lt_length_piecesAround_iff`).

The mark is `%s`, for which `has_placeholder` looks behind the cuts of `segments`.
-/

namespace TagLogic.Text

variable {m s t : List Char} {c : Char}

/-! ## At a character that is not in the mark -/

/-- A mark that begins with a character it does not have is empty. -/
theorem eq_nil_of_prefix_cons (hc : c ∉ m) (h : m <+: c :: t) : m = [] := by
  cases m with
  | nil => rfl
  | cons d m =>
    obtain ⟨u, hu⟩ := h
    cases hu
    exact absurd List.mem_cons_self hc

/-- **A mark is on one side of a character that it does not have.** -/
theorem infix_append_cons_iff (hc : c ∉ m) : m <:+: s ++ c :: t ↔ m <:+: s ∨ m <:+: t := by
  rw [List.infix_append_iff, List.infix_cons_iff]
  constructor
  · rintro (h | (h | h) | ⟨front, back, rfl, hfront, hback⟩)
    · exact Or.inl h
    · rw [eq_nil_of_prefix_cons hc h]
      exact Or.inl List.nil_infix
    · exact Or.inr h
    · -- A mark across the place would go on with `c`, so it ends there.
      have hnil : back = [] :=
        eq_nil_of_prefix_cons (fun hmem => hc (List.mem_append_right front hmem)) hback
      rw [hnil, List.append_nil]
      exact Or.inl hfront.isInfix
  · rintro (h | h)
    · exact Or.inl h
    · exact Or.inr (Or.inl (Or.inr h))

theorem infix_cons_iff_of_not_mem (hc : c ∉ m) : m <:+: c :: s ↔ m <:+: s := by
  have hcut := infix_append_cons_iff (s := []) (t := s) hc
  rw [List.nil_append] at hcut
  rw [hcut, List.infix_nil]
  exact or_iff_right_of_imp fun h => h ▸ List.nil_infix

/-- Characters that the mark does not have may be left out in front. -/
theorem infix_append_left_iff {before : List Char} (h : ∀ c ∈ before, c ∉ m) :
    m <:+: before ++ s ↔ m <:+: s := by
  induction before with
  | nil => exact Iff.rfl
  | cons c before ih =>
    obtain ⟨hc, hbefore⟩ := List.forall_mem_cons.mp h
    rw [List.cons_append, infix_cons_iff_of_not_mem hc, ih hbefore]

/-- And so may they at the end. -/
theorem infix_append_right_iff {after : List Char} (h : ∀ c ∈ after, c ∉ m) :
    m <:+: s ++ after ↔ m <:+: s := by
  have hreverse : ∀ c ∈ after.reverse, c ∉ m.reverse := by
    intro c hc hmem
    exact h c (List.mem_reverse.mp hc) (List.mem_reverse.mp hmem)
  rw [← List.reverse_infix, List.reverse_append, infix_append_left_iff hreverse,
    List.reverse_infix]

/-- **Stripping characters that the mark does not have keeps the marks.** -/
theorem infix_strip_iff {p : Char → Bool} (hm : ∀ c ∈ m, p c = false) :
    m <:+: strip p s ↔ m <:+: s := by
  obtain ⟨before, after, hbefore, hafter, heq⟩ := exists_eq_append_strip p s
  have hnot : ∀ c, p c = true → c ∉ m := by
    intro c hc hmem
    rw [hm c hmem] at hc
    cases hc
  conv => rhs; rw [heq]
  rw [infix_append_right_iff fun c hc => hnot c (hafter c hc),
    infix_append_left_iff fun c hc => hnot c (hbefore c hc)]

/-- **A mark without the separator is in one of the pieces.** -/
theorem infix_splitOn_iff {sep : Char} (hm : sep ∉ m) (s : List Char) :
    m <:+: s ↔ ∃ piece ∈ s.splitOn sep, m <:+: piece := by
  by_cases hsep : sep ∈ s
  · obtain ⟨body, rest, heq, hbody⟩ := List.eq_append_cons_of_mem hsep
    have hsmaller : rest.length < s.length := by
      rw [heq, List.length_append, List.length_cons]
      omega
    rw [heq, infix_append_cons_iff hm, List.splitOn_append_cons_self_of_not_mem hbody,
      infix_splitOn_iff hm rest]
    simp
  · rw [List.splitOn_eq_singleton hsep]
    simp
termination_by s.length

/-! ## At the mark itself -/

variable {a b : Char}

theorem mark_infix_cons_iff : [a, b] <:+: c :: s ↔ (c = a ∧ s.head? = some b) ∨ [a, b] <:+: s := by
  rw [List.infix_cons_iff, List.cons_prefix_cons]
  cases s with
  | nil => simp
  | cons d s => simp [eq_comm, List.cons_prefix_cons]

/-- **No piece between the marks holds one.** -/
theorem not_mark_infix_of_mem {piece : List Char} (h : piece ∈ piecesAround a b s) :
    ¬ [a, b] <:+: piece := by
  induction s generalizing piece with
  | nil =>
    rw [piecesAround_nil, List.mem_singleton] at h
    subst h
    simp
  | cons c s ih =>
    rw [piecesAround_cons] at h
    unfold consAround at h
    split at h
    next d first more heq =>
      -- `c` stands before a piece that begins with `d`: both are cut out, or `c` joins it.
      rw [heq] at ih
      have hd := ih List.mem_cons_self
      split at h
      next =>
        rcases List.mem_cons.mp h with rfl | h
        · simp
        · rcases List.mem_cons.mp h with rfl | h
          · exact fun hpiece => hd (List.infix_cons hpiece)
          · exact ih (List.mem_cons_of_mem _ h)
      next hmark =>
        rcases List.mem_cons.mp h with rfl | h
        · rw [mark_infix_cons_iff, List.head?_cons, Option.some.injEq]
          exact fun hpiece => hpiece.elim hmark hd
        · exact ih (List.mem_cons_of_mem _ h)
    next ps hps =>
      -- The first piece is empty, so `c` is a piece of its own.
      cases hcases : piecesAround a b s with
      | nil => exact absurd hcases (piecesAround_ne_nil a b s)
      | cons first more =>
        rw [hcases] at h ih hps
        cases first with
        | cons d first => exact absurd rfl (hps d first more)
        | nil =>
          rcases List.mem_cons.mp h with rfl | h
          · simp [mark_infix_cons_iff]
          · exact ih (List.mem_cons_of_mem _ h)

/-- **A text holds the mark exactly when it is cut there.** -/
theorem one_lt_length_piecesAround_iff :
    1 < (piecesAround a b s).length ↔ [a, b] <:+: s := by
  have hjoin := intercalate_piecesAround a b s
  cases hps : piecesAround a b s with
  | nil => exact absurd hps (piecesAround_ne_nil a b s)
  | cons first more =>
    cases more with
    | nil =>
      have hfirst : first = s := by
        rw [hps] at hjoin
        simpa using hjoin
      have hnot : ¬ [a, b] <:+: first := not_mark_infix_of_mem (hps ▸ List.mem_cons_self)
      rw [hfirst] at hnot
      simp [hnot]
    | cons second more =>
      rw [hps] at hjoin
      have hmark : [a, b] <:+: s := ⟨first, [a, b].intercalate (second :: more), by
        rw [← hjoin, List.intercalate_cons_cons]⟩
      simp [hmark]

end TagLogic.Text
