import TagLogic.Proofs.Text.Infix
import TagLogic.Proofs.Text.Joined
import Mathlib.Algebra.GroupWithZero.Nat
import Mathlib.Data.List.Infix

/-!
# Texts with holes

A text with holes is the list of its literal pieces, with a hole between each two; putting
something into the holes is `List.intercalate`. Cutting a text at a mark makes a text with a
hole for each mark (`length_piecesAround`). Two such texts put together have the holes of both, and
none comes in at the place where they meet, whatever the letters are there:

- `intercalate_merge`, `intercalate_mergeAll` — filling goes part by part;
- `length_merge`, `length_mergeAll` — and so does counting the holes.

What is put into the holes can be told from the filled text as soon as there is a hole
(`intercalate_injective`), and without one it is lost (`intercalate_eq_of_length_le_one`).

The operation `render_with` puts a name into the holes.
-/

namespace TagLogic.Text

/-! ## Counting marks -/

/-- How often the mark stands in the text. -/
def occurrences (m s : List Char) : Nat := s.tails.countP fun t => m.isPrefixOf t

variable {a b c : Char} {s : List Char}

theorem occurrences_cons (m : List Char) (c : Char) (s : List Char) :
    occurrences m (c :: s) = occurrences m s + if m <+: c :: s then 1 else 0 := by
  unfold occurrences
  rw [List.tails_cons, List.countP_cons]
  simp only [List.isPrefixOf_iff_prefix]

/-- The first piece begins as the text does, or the text begins with the mark or is empty. -/
theorem head?_of_piecesAround {first : List Char} {more : List (List Char)}
    (h : piecesAround a b s = first :: more) :
    s.head? = (first.head?).or (if more = [] then none else some a) := by
  rw [← intercalate_piecesAround a b s, h]
  by_cases hmore : more = []
  · rw [hmore, List.intercalate_singleton, if_pos rfl, Option.or_none]
  · rw [List.intercalate_cons_of_ne_nil hmore, List.append_assoc, List.head?_append, if_neg hmore]
    rfl

theorem mark_prefix_cons_iff : [a, b] <+: c :: s ↔ c = a ∧ s.head? = some b := by
  rw [List.cons_prefix_cons, eq_comm]
  cases s with
  | nil => simp
  | cons d s => simp [List.cons_prefix_cons, eq_comm]

/-- **There is one piece more than marks**, as marks do not overlap. -/
theorem length_piecesAround (hab : a ≠ b) (s : List Char) :
    (piecesAround a b s).length = occurrences [a, b] s + 1 := by
  induction s with
  | nil => rfl
  | cons c s ih =>
    rw [occurrences_cons, piecesAround_cons]
    simp only [mark_prefix_cons_iff]
    cases hps : piecesAround a b s with
    | nil => exact absurd hps (piecesAround_ne_nil a b s)
    | cons first more =>
      have hhead := head?_of_piecesAround hps
      rw [hps, List.length_cons] at ih
      cases first with
      | nil =>
        -- What follows is a mark or nothing, and no mark begins with `b`.
        have hnot : ¬ (c = a ∧ s.head? = some b) := by
          intro h
          rw [hhead] at h
          by_cases hmore : more = []
          · simp [hmore] at h
          · simp [hmore, hab] at h
        rw [if_neg hnot, Nat.add_zero, ← ih]
        rfl
      | cons d piece =>
        rw [List.head?_cons, Option.some_or] at hhead
        simp only [hhead, Option.some.injEq]
        unfold consAround
        dsimp only
        by_cases hmark : c = a ∧ d = b
        · rw [if_pos hmark, if_pos hmark, List.length_cons, List.length_cons, ih]
        · rw [if_neg hmark, if_neg hmark, List.length_cons, ih]

/-! ## Putting texts with holes together -/

/-- A text put before a text with holes becomes part of its first piece. -/
def putBefore (s : List Char) : List (List Char) → List (List Char)
  | [] => [s]
  | p :: ps => (s ++ p) :: ps

/-- One text with holes behind another: the pieces that meet become one. -/
def merge : List (List Char) → List (List Char) → List (List Char)
  | [], qs => qs
  | [p], qs => putBefore p qs
  | p :: p' :: ps, qs => p :: merge (p' :: ps) qs

/-- Many texts with holes, one behind the other. -/
def mergeAll (parts : List (List (List Char))) : List (List Char) := parts.foldr merge [[]]

variable {sep : List Char} {ps qs : List (List Char)} {parts : List (List (List Char))}

theorem putBefore_ne_nil (s : List Char) (ps : List (List Char)) : putBefore s ps ≠ [] := by
  cases ps <;> exact List.cons_ne_nil _ _

theorem intercalate_putBefore (sep s : List Char) (ps : List (List Char)) :
    sep.intercalate (putBefore s ps) = s ++ sep.intercalate ps := by
  cases ps with
  | nil => exact List.intercalate_singleton.trans (List.append_nil s).symm
  | cons p ps =>
    show sep.intercalate ((s ++ p) :: ps) = s ++ sep.intercalate (p :: ps)
    by_cases hlast : ps = []
    · rw [hlast, List.intercalate_singleton, List.intercalate_singleton]
    · rw [List.intercalate_cons_of_ne_nil hlast, List.intercalate_cons_of_ne_nil hlast,
        List.append_assoc, List.append_assoc, List.append_assoc]

theorem merge_ne_nil (hq : qs ≠ []) : merge ps qs ≠ [] := by
  unfold merge
  split
  next => exact hq
  next => exact putBefore_ne_nil _ _
  next => exact List.cons_ne_nil _ _

/-- **What is put together is filled part by part.** -/
theorem intercalate_merge (hp : ps ≠ []) (hq : qs ≠ []) :
    sep.intercalate (merge ps qs) = sep.intercalate ps ++ sep.intercalate qs := by
  induction ps with
  | nil => exact absurd rfl hp
  | cons p ps ih =>
    cases ps with
    | nil =>
      show sep.intercalate (putBefore p qs) = _
      rw [intercalate_putBefore, List.intercalate_singleton]
    | cons p' ps =>
      show sep.intercalate (p :: merge (p' :: ps) qs) = _
      rw [List.intercalate_cons_of_ne_nil (merge_ne_nil hq), ih (List.cons_ne_nil _ _),
        List.intercalate_cons_cons, List.append_assoc _ _ (sep.intercalate qs)]

/-- **And so are its holes counted.** -/
theorem length_merge (hp : ps ≠ []) (hq : qs ≠ []) :
    (merge ps qs).length + 1 = ps.length + qs.length := by
  induction ps with
  | nil => exact absurd rfl hp
  | cons p ps ih =>
    cases ps with
    | nil =>
      cases qs with
      | nil => exact absurd rfl hq
      | cons q qs =>
        show qs.length + 1 + 1 = 1 + (qs.length + 1)
        omega
    | cons p' ps =>
      have hrest := ih (List.cons_ne_nil _ _)
      show (merge (p' :: ps) qs).length + 1 + 1 = (p' :: ps).length + 1 + qs.length
      omega

theorem mergeAll_ne_nil (parts : List (List (List Char))) : mergeAll parts ≠ [] := by
  induction parts with
  | nil => exact List.cons_ne_nil _ _
  | cons ps parts ih => exact merge_ne_nil ih

theorem intercalate_mergeAll (h : ∀ ps ∈ parts, ps ≠ []) :
    sep.intercalate (mergeAll parts) = parts.flatMap sep.intercalate := by
  induction parts with
  | nil => rfl
  | cons ps parts ih =>
    show sep.intercalate (merge ps (mergeAll parts)) = _
    rw [intercalate_merge (h ps List.mem_cons_self) (mergeAll_ne_nil parts), List.flatMap_cons,
      ih fun qs hqs => h qs (List.mem_cons_of_mem ps hqs)]

theorem length_mergeAll (h : ∀ ps ∈ parts, ps ≠ []) :
    (mergeAll parts).length = (parts.map fun ps => ps.length - 1).sum + 1 := by
  induction parts with
  | nil => rfl
  | cons ps parts ih =>
    have hps : ps ≠ [] := h ps List.mem_cons_self
    have hpos : 0 < ps.length := List.length_pos_of_ne_nil hps
    have hmerge := length_merge hps (mergeAll_ne_nil parts)
    have hrest := ih fun qs hqs => h qs (List.mem_cons_of_mem ps hqs)
    rw [List.map_cons, List.sum_cons]
    show (merge ps (mergeAll parts)).length = _
    omega

/-! ## What a filled text tells -/

theorem occurrences_pos_iff {m s : List Char} : 0 < occurrences m s ↔ m <:+: s := by
  unfold occurrences
  rw [List.countP_pos_iff, List.infix_iff_prefix_suffix]
  simp only [List.mem_tails, List.isPrefixOf_iff_prefix, and_comm]

theorem length_intercalate (sep : List Char) (hne : ps ≠ []) :
    (sep.intercalate ps).length = (ps.map List.length).sum + (ps.length - 1) * sep.length := by
  induction ps with
  | nil => exact absurd rfl hne
  | cons p ps ih =>
    by_cases hlast : ps = []
    · simp [hlast]
    · have hpos : 0 < ps.length := List.length_pos_of_ne_nil hlast
      have hholes : (p :: ps).length - 1 = (ps.length - 1) + 1 := by
        rw [List.length_cons]
        omega
      rw [List.intercalate_cons_of_ne_nil hlast, List.length_append, List.length_append, ih hlast,
        hholes, List.map_cons, List.sum_cons, Nat.succ_mul]
      omega

/-- **With a hole the filling can be told from the text**: the length of the text tells its length,
and it stands behind the first piece. -/
theorem intercalate_injective (h : 1 < ps.length) :
    Function.Injective fun filling : List Char => filling.intercalate ps := by
  intro s t heq
  have hne : ps ≠ [] := List.ne_nil_of_length_pos (Nat.lt_trans Nat.zero_lt_one h)
  have hholes : 0 < ps.length - 1 := Nat.sub_pos_of_lt h
  -- All lengths but that of the filling are the same, and it counts once for each hole.
  have hlength : s.length = t.length := by
    have hboth : (s.intercalate ps).length = (t.intercalate ps).length := congrArg List.length heq
    rw [length_intercalate s hne, length_intercalate t hne] at hboth
    exact Nat.eq_of_mul_eq_mul_left hholes (Nat.add_left_cancel hboth)
  cases ps with
  | nil => exact absurd rfl hne
  | cons p ps =>
    have hmore : ps ≠ [] := List.ne_nil_of_length_pos hholes
    have hcons : s.intercalate (p :: ps) = t.intercalate (p :: ps) := heq
    rw [List.intercalate_cons_of_ne_nil hmore, List.intercalate_cons_of_ne_nil hmore,
      List.append_assoc, List.append_assoc] at hcons
    exact (List.append_inj (List.append_cancel_left hcons) hlength).1

/-- Without a hole there is no place for a filling. -/
theorem intercalate_eq_of_length_le_one (h : ps.length ≤ 1) (s t : List Char) :
    s.intercalate ps = t.intercalate ps := by
  match ps, h with
  | [], _ => rfl
  | [_], _ => rfl

end TagLogic.Text
