/-!
# The order of UTF-8 bytes

Tags are kept in the order of their UTF-8 encodings, compared byte by byte.
`Precedes` is that order on texts. It is a strict total order: `Precedes.irrefl`,
`Precedes.trans` and `precedes_or_eq_or_precedes`; the last holds because a text is
determined by its bytes (`bytes_inj`).

It is the order in which the operation `tags` lists the tags of an actor.
-/

namespace TagLogic.Text

/-- The UTF-8 encoding of a text. -/
def bytes (s : String) : List UInt8 := s.toByteArray.data.toList

/-- A text is determined by its bytes. -/
theorem bytes_inj {s t : String} : bytes s = bytes t ↔ s = t := by
  constructor
  · intro h
    exact String.toByteArray_inj.mp (ByteArray.ext (Array.toList_inj.mp h))
  · rintro rfl
    rfl

/-- The bytes of the first text come before those of the second. -/
def Precedes (s t : String) : Prop := bytes s < bytes t

instance (s t : String) : Decidable (Precedes s t) :=
  inferInstanceAs (Decidable (bytes s < bytes t))

theorem Precedes.irrefl (s : String) : ¬ Precedes s s := List.lt_irrefl _

theorem Precedes.trans {s t u : String} (h : Precedes s t) (h' : Precedes t u) : Precedes s u :=
  List.lt_trans h h'

theorem Precedes.ne {s t : String} (h : Precedes s t) : s ≠ t := by
  rintro rfl
  exact Precedes.irrefl s h

theorem Precedes.asymm {s t : String} (h : Precedes s t) : ¬ Precedes t s :=
  fun h' => Precedes.irrefl s (h.trans h')

/-- **Any two texts are comparable.** -/
theorem precedes_or_eq_or_precedes (s t : String) : Precedes s t ∨ s = t ∨ Precedes t s := by
  by_cases hst : Precedes s t
  · exact Or.inl hst
  by_cases hts : Precedes t s
  · exact Or.inr (Or.inr hts)
  · exact Or.inr (Or.inl (bytes_inj.mp (List.le_antisymm hts hst)))

end TagLogic.Text
