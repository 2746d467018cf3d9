import TagLogic.Pattern.Basic
import TagLogic.Proofs.Text.Infix

/-!
# Where a pattern has a slot

A name belongs into a pattern exactly when `%s` stands somewhere in its text:

> `hasSlot_iff`: the segments have a slot if and only if the text holds the mark.

The text goes through three cuts on the way to the segments: at brackets, at commas
between brackets, and at the marks themselves, and the pieces of a choice are trimmed. No
bracket, comma or white space is part of a mark, so none of this breaks a mark or makes
one. The recursion of `segments?` is told once, by the relation `Segmented`, along which
statements about patterns go by induction.

The operation is `has_placeholder`.
-/

namespace TagLogic

namespace Segment

/-- There is no bracket in the text. -/
def Flat (s : List Char) : Prop := ∀ c ∈ s, isBracket c = false

instance (s : List Char) : Decidable (Flat s) :=
  decidable_of_iff (s.all (!isBracket ·) = true) (by simp [Flat])

/-- The text is segmented like this: text up to the first pair of brackets, the choice between
them, and what follows. -/
inductive Segmented : List Char → List Segment → Prop
  | flat {s : List Char} : Flat s → Segmented s (ofFlat s)
  | pair {before inside after : List Char} {rest : List Segment} :
      Flat before → Flat inside → Segmented after rest →
      Segmented (before ++ '[' :: (inside ++ ']' :: after))
        (ofFlat before ++ ofInside inside :: rest)

theorem flat_or_bracket (s : List Char) :
    Flat s ∨ ∃ before c rest, s = before ++ c :: rest ∧ Flat before ∧ (c = '[' ∨ c = ']') := by
  rcases Text.all_or_first (!isBracket ·) s with h | ⟨before, c, rest, rfl, hbefore, hc⟩
  · exact Or.inl fun c hc => by simpa using h c hc
  · have hbracket : isBracket c = true := by simpa using hc
    refine Or.inr ⟨before, c, rest, rfl, fun d hd => by simpa using hbefore d hd, ?_⟩
    simpa only [isBracket, Bool.or_eq_true, beq_iff_eq] using hbracket

theorem segmented_of_segments? {s : List Char} {segments : List Segment}
    (h : segments? s = some segments) : Segmented s segments := by
  rcases flat_or_bracket s with hflat | ⟨before, c, rest, rfl, hbefore, rfl | rfl⟩
  · rw [segments?_flat hflat] at h
    cases h
    exact .flat hflat
  · rcases flat_or_bracket rest with hflat | ⟨inside, d, after, rfl, hinside, rfl | rfl⟩
    · rw [segments?_open hbefore hflat] at h
      cases h
    · rw [segments?_nested hbefore hinside] at h
      cases h
    · rw [segments?_pair hbefore hinside] at h
      cases hafter : segments? after with
      | none =>
        rw [hafter] at h
        cases h
      | some rest =>
        rw [hafter] at h
        cases h
        exact .pair hbefore hinside (segmented_of_segments? hafter)
  · rw [segments?_closed hbefore] at h
    cases h
termination_by s.length
decreasing_by
  subst_vars
  simp only [List.length_append, List.length_cons]
  omega

/-- **The relation is what the reader does.** -/
theorem segments?_eq_some_iff {s : List Char} {segments : List Segment} :
    segments? s = some segments ↔ Segmented s segments := by
  constructor
  · exact segmented_of_segments?
  · intro h
    induction h with
    | flat hflat => exact segments?_flat hflat
    | pair hbefore hinside _ ih => rw [segments?_pair hbefore hinside, ih]; rfl

/-! ## Texts with slots between them -/

/-- The texts as segments, with a slot between each two. -/
def slotted (ps : List (List Char)) : List Segment :=
  ((ps.map ofText).intersperse [.slot]).flatten

theorem ofFlat_eq_slotted (s : List Char) : ofFlat s = slotted (aroundSlots s) := rfl

theorem slotted_singleton (p : List Char) : slotted [p] = ofText p := List.append_nil _

theorem slotted_cons (p : List Char) {ps : List (List Char)} (h : ps ≠ []) :
    slotted (p :: ps) = ofText p ++ .slot :: slotted ps := by
  cases ps with
  | nil => exact absurd rfl h
  | cons q ps => rfl

/-! ## Slots and marks -/

theorem isWhite_mark : ∀ c ∈ mark, Text.isWhite c = false :=
  List.forall_mem_cons.mpr ⟨rfl, List.forall_mem_singleton.mpr rfl⟩

theorem hasMark_iff {s : List Char} : hasMark s = true ↔ mark <:+: s := by
  rw [hasMark, decide_eq_true_eq]
  exact Text.one_lt_length_piecesAround_iff

/-- Text without brackets has a slot between each two pieces. -/
theorem hasSlot_ofFlat (s : List Char) : (ofFlat s).any hasSlot = hasMark s := by
  unfold ofFlat hasMark
  cases aroundSlots s with
  | nil => rfl
  | cons piece more =>
    cases more with
    | nil =>
      by_cases hnil : piece = []
      · simp [ofText, hnil]
      · simp [ofText, hnil, hasSlot]
    | cons next more => simp [hasSlot]

/-- Neither the cut at commas nor trimming breaks a mark. -/
theorem infix_trimmed_pieces_iff (s : List Char) :
    (∃ piece ∈ s.splitOn ',', mark <:+: Text.trim piece) ↔ mark <:+: s := by
  have hcomma : ',' ∉ mark := by decide
  rw [Text.infix_splitOn_iff hcomma]
  simp only [Text.trim, Text.infix_strip_iff isWhite_mark]

/-- A choice has a slot where its text has one. -/
theorem hasSlot_ofInside (s : List Char) : (ofInside s).hasSlot = true ↔ mark <:+: s := by
  have hpieces : (ofInside s).hasSlot = (s.splitOn ',').any fun p => hasMark (Text.trim p) := by
    unfold ofInside
    split
    -- There is always a piece.
    next hnil => exact absurd (List.map_eq_nil_iff.mp hnil) (List.splitOn_ne_nil ',' s)
    next first others heq =>
      rw [hasSlot, ← heq, List.any_map]
      simp [Function.comp_def]
  rw [hpieces, List.any_eq_true, ← infix_trimmed_pieces_iff]
  simp only [hasMark_iff]

/-- **The segments have a slot exactly when the text holds the mark.** -/
theorem hasSlot_iff_of_segmented {s : List Char} {segments : List Segment}
    (h : Segmented s segments) : segments.any hasSlot = true ↔ mark <:+: s := by
  induction h with
  | flat _ => rw [hasSlot_ofFlat, hasMark_iff]
  | @pair before inside after rest _ _ _ ih =>
    have hopener : '[' ∉ mark := by decide
    have hcloser : ']' ∉ mark := by decide
    rw [List.any_append, List.any_cons, Bool.or_eq_true, Bool.or_eq_true, hasSlot_ofFlat,
      hasMark_iff, hasSlot_ofInside, ih, Text.infix_append_cons_iff hopener,
      Text.infix_append_cons_iff hcloser]

end Segment

/-- **A name belongs into a pattern exactly when `%s` stands in its text.** -/
theorem Pattern.hasSlot_iff (p : Pattern) :
    p.hasSlot = true ↔ Segment.mark <:+: p.text.toList :=
  Segment.hasSlot_iff_of_segmented (Segment.segments?_eq_some_iff.mp p.segments?_text)

end TagLogic
