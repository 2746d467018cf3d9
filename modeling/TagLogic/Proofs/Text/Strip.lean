import TagLogic.Text.Blank
import Mathlib.Data.List.DropRight
import Mathlib.Data.List.TakeWhile

/-!
# What stripping leaves

`strip` drops from the front and then from the end (`strip_eq_rdropWhile`), whatever the
class, so its laws are those of `List.dropWhile` and `List.rdropWhile` put together:

- `strip_eq_self_iff` — a text is already trimmed exactly when no blank stands at
  either end;
- `exists_eq_append_strip` — nothing but blanks is removed;
- `strip_between` — and blanks around a trimmed text all are;
- `strip_eq_nil_iff` — nothing is left of blanks alone.

It is what `from_str`, `segments` and the production `text` strip their texts by.
-/

namespace TagLogic.Text

variable {p : Char → Bool} {s : List Char}

theorem strip_eq_rdropWhile (p : Char → Bool) (s : List Char) :
    strip p s = (s.dropWhile p).rdropWhile p := rfl

/-! ## The ends of a text -/

theorem dropWhile_eq_self_iff_head? : s.dropWhile p = s ↔ ∀ c ∈ s.head?, p c = false := by
  rw [List.dropWhile_eq_self_iff]
  cases s <;> simp

theorem rdropWhile_eq_self_iff_getLast? :
    s.rdropWhile p = s ↔ ∀ c ∈ s.getLast?, p c = false := by
  rw [List.rdropWhile_eq_self_iff]
  by_cases hnil : s = []
  · simp [hnil]
  · simp [hnil, List.getLast?_eq_some_getLast hnil]

/-- Blanks at the end change nothing in what is left. -/
theorem rdropWhile_append_of_pos {after : List Char} (h : ∀ c ∈ after, p c = true)
    (s : List Char) : (s ++ after).rdropWhile p = s.rdropWhile p := by
  rw [List.rdropWhile, List.reverse_append,
    List.dropWhile_append_of_pos fun c hc => h c (List.mem_reverse.mp hc), List.rdropWhile]

/-- A text is of the class throughout or shows a first other character. -/
theorem all_or_first (p : Char → Bool) (s : List Char) :
    (∀ c ∈ s, p c = true) ∨ ∃ before c rest, s = before ++ c :: rest ∧
      (∀ d ∈ before, p d = true) ∧ p c = false := by
  cases hfind : s.find? (!p ·) with
  | none => exact Or.inl (by simpa using hfind)
  | some c =>
    obtain ⟨hc, before, rest, heq, hbefore⟩ := List.find?_eq_some_iff_append.mp hfind
    exact Or.inr ⟨before, c, rest, heq, by simpa using hbefore, by simpa using hc⟩

/-! ## Both ends -/

/-- **Nothing but blanks is removed.** -/
theorem exists_eq_append_strip (p : Char → Bool) (s : List Char) :
    ∃ before after, (∀ c ∈ before, p c = true) ∧ (∀ c ∈ after, p c = true) ∧
      s = before ++ strip p s ++ after := by
  refine ⟨s.takeWhile p, (s.dropWhile p).rtakeWhile p, fun c hc => List.mem_takeWhile_imp hc,
    fun c hc => List.mem_rtakeWhile_imp hc, ?_⟩
  rw [strip_eq_rdropWhile, List.append_assoc, List.rdropWhile_append_rtakeWhile,
    List.takeWhile_append_dropWhile]

/-- What `strip` leaves ends with no character of the class. -/
theorem getLast?_strip_not (s : List Char) : ∀ c ∈ (strip p s).getLast?, p c = false :=
  rdropWhile_eq_self_iff_getLast?.mp (List.rdropWhile_idempotent p (s.dropWhile p))

/-- What `strip` leaves starts where the blanks in front end. -/
theorem head?_strip (h : strip p s ≠ []) : (strip p s).head? = (s.dropWhile p).head? := by
  obtain ⟨after, heq⟩ := List.rdropWhile_prefix p (s.dropWhile p)
  rw [← strip_eq_rdropWhile] at heq
  rw [← heq, List.head?_append_of_ne_nil _ h]

/-- What `strip` leaves starts with no character of the class. -/
theorem head?_strip_not (s : List Char) : ∀ c ∈ (strip p s).head?, p c = false := by
  intro c hc
  by_cases hnil : strip p s = []
  · rw [hnil] at hc
    cases hc
  · exact dropWhile_eq_self_iff_head?.mp (List.dropWhile_idempotent p s) c (head?_strip hnil ▸ hc)

/-- **A text is already trimmed exactly when no blank stands at either end.** -/
theorem strip_eq_self_iff :
    strip p s = s ↔ (∀ c ∈ s.head?, p c = false) ∧ (∀ c ∈ s.getLast?, p c = false) := by
  constructor
  · intro h
    exact ⟨h ▸ head?_strip_not s, h ▸ getLast?_strip_not s⟩
  · rintro ⟨hhead, hlast⟩
    rw [strip_eq_rdropWhile, dropWhile_eq_self_iff_head?.mpr hhead,
      rdropWhile_eq_self_iff_getLast?.mpr hlast]

/-- Nothing comes in. -/
theorem mem_of_mem_strip {c : Char} (h : c ∈ strip p s) : c ∈ s :=
  (List.dropWhile_sublist p).mem ((List.rdropWhile_prefix p _).mem h)

/-- **What is trimmed already is left of it between blanks.** -/
theorem strip_between {before after : List Char} (hbefore : ∀ c ∈ before, p c = true)
    (hs : strip p s = s) (hafter : ∀ c ∈ after, p c = true) :
    strip p (before ++ (s ++ after)) = s := by
  obtain ⟨hhead, hlast⟩ := strip_eq_self_iff.mp hs
  rw [strip_eq_rdropWhile, List.dropWhile_append_of_pos hbefore]
  by_cases hnil : s = []
  · rw [hnil, List.nil_append, List.dropWhile_eq_nil_iff.mpr hafter, List.rdropWhile_nil]
  · have hfront : ∀ c ∈ (s ++ after).head?, p c = false := by
      rwa [List.head?_append_of_ne_nil _ hnil]
    rw [dropWhile_eq_self_iff_head?.mpr hfront, rdropWhile_append_of_pos hafter,
      rdropWhile_eq_self_iff_getLast?.mpr hlast]

/-- Stripping leaves nothing exactly when the text is blank throughout. -/
theorem strip_eq_nil_iff : strip p s = [] ↔ ∀ c ∈ s, p c = true := by
  constructor
  · intro h
    obtain ⟨before, after, hbefore, hafter, heq⟩ := exists_eq_append_strip p s
    rw [h, List.append_nil] at heq
    rw [heq]
    exact List.forall_mem_append.mpr ⟨hbefore, hafter⟩
  · intro h
    rw [strip_eq_rdropWhile, List.dropWhile_eq_nil_iff.mpr h, List.rdropWhile_nil]

end TagLogic.Text
