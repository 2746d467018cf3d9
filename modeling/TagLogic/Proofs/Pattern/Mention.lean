import TagLogic.Actor
import TagLogic.Proofs.Pattern.Filling

/-!
# Patterns that mention somebody

Three ways to say that a pattern is about somebody come to the same: one of its segments has a
slot, `%s` stands somewhere in its text, and it can be rendered so that the name makes a
difference. The first two are about the pattern as it stands (`Pattern.hasSlot_iff`). As to the
third, a rendered pattern is a text with holes, filled with the name, and the name can be told
from it exactly when there is a hole.

A slot inside of a choice makes a hole only where its piece is picked, so it takes a chooser that
looks for it (`Chooser.seeking`); and no chooser makes a hole where the text holds no mark:

- `infix_text_iff` — a mark stands outside of the brackets or in a piece that is offered;
- `one_lt_length_literals_iff` — a hole is made by one outside or in a piece that was picked;
- `exists_hole_iff` — so some chooser makes a hole exactly when the text holds a mark.

> `hasSlot_iff_told`: a pattern has a slot exactly when its text holds the mark, and exactly when
> some chooser lets two actors be told apart; without one it says the same about everybody.

The first is the operation `has_placeholder`; the third is about `render_with`.
-/

namespace TagLogic


/-- Looks for a piece with a slot. -/
def Chooser.seeking : Chooser := fun _ offered =>
  offered.findIdx fun piece => Segment.hasMark piece.toList

namespace Bracketing

open Segment (hasMark_iff mark)

variable {offered : List (List String)}

/-! ## What is picked -/

/-- A pick is one of the pieces. -/
theorem picked_mem {pieces : List String} (h : pieces ≠ []) (n : Nat) :
    picked pieces n ∈ pieces := by
  have hlt : n % pieces.length < pieces.length := Nat.mod_lt n (List.length_pos_of_ne_nil h)
  unfold picked List.getD
  rw [List.getElem?_eq_getElem hlt, Option.getD_some]
  exact List.getElem_mem hlt

/-- Where a piece holds a mark, the pick of who seeks one does. -/
theorem mark_infix_picked_seeking {pieces : List String}
    (h : ∃ piece ∈ pieces, mark <:+: piece.toList) (before : List (List String)) :
    mark <:+: (picked pieces (Chooser.seeking before pieces)).toList := by
  simp only [← hasMark_iff] at h ⊢
  have hlt := List.findIdx_lt_length_of_exists h
  unfold picked Chooser.seeking List.getD
  rw [Nat.mod_eq_of_lt hlt, List.getElem?_eq_getElem hlt, Option.getD_some]
  exact List.findIdx_getElem (p := fun piece : String => Segment.hasMark piece.toList) (w := hlt)

/-- Whatever is picked was offered. -/
theorem offered_of_picked (hne : ∀ pieces ∈ offered, pieces ≠ []) (chooser : Chooser)
    (before : List (List String)) {piece : String}
    (h : piece ∈ List.zipWith picked offered (chooser.answers before offered)) :
    ∃ pieces ∈ offered, piece ∈ pieces := by
  induction offered generalizing before with
  | nil => exact absurd h List.not_mem_nil
  | cons first rest ih =>
    obtain ⟨hfirst, hrest⟩ := List.forall_mem_cons.mp hne
    rcases List.mem_cons.mp h with rfl | h
    · exact ⟨first, List.mem_cons_self, picked_mem hfirst _⟩
    · obtain ⟨pieces, hpieces, hpiece⟩ := ih hrest (first :: before) h
      exact ⟨pieces, List.mem_cons_of_mem first hpieces, hpiece⟩

/-- Whoever seeks a mark picks one that is offered. -/
theorem exists_picked_seeking (before : List (List String))
    (h : ∃ pieces ∈ offered, ∃ piece ∈ pieces, mark <:+: piece.toList) :
    ∃ piece ∈ List.zipWith picked offered (Chooser.seeking.answers before offered),
      mark <:+: piece.toList := by
  induction offered generalizing before with
  | nil =>
    obtain ⟨pieces, hpieces, -⟩ := h
    exact absurd hpieces List.not_mem_nil
  | cons first rest ih =>
    obtain ⟨pieces, hpieces, hmark⟩ := h
    rcases List.mem_cons.mp hpieces with rfl | hpieces
    · exact ⟨_, List.mem_cons_self, mark_infix_picked_seeking hmark before⟩
    · obtain ⟨piece, hpiece, hmark⟩ := ih (first :: before) ⟨pieces, hpieces, hmark⟩
      exact ⟨piece, List.mem_cons_of_mem _ hpiece, hmark⟩

/-! ## Where a mark stands and where a hole is made -/

/-- The pieces that are offered hold a mark as the text between the brackets does. -/
theorem infix_piecesInside_iff (s : List Char) :
    (∃ piece ∈ piecesInside s, mark <:+: piece.toList) ↔ mark <:+: s := by
  rw [← Segment.infix_trimmed_pieces_iff]
  unfold piecesInside
  simp only [List.mem_map, exists_exists_and_eq_and, String.toList_ofList]

/-- **A mark in the text stands outside of the brackets or in a piece that is offered.** -/
theorem infix_text_iff (b : Bracketing) :
    mark <:+: b.text ↔ (∃ s ∈ b.outside, mark <:+: s) ∨
      ∃ pieces ∈ b.offered, ∃ piece ∈ pieces, mark <:+: piece.toList := by
  obtain ⟨pairs, last, hpairs, hlast⟩ := b
  induction pairs with
  | nil => simp [text, outside, offered]
  | cons pair pairs ih =>
    -- No bracket is part of a mark, so none goes across the first pair.
    have hopener : '[' ∉ mark := by decide
    have hcloser : ']' ∉ mark := by decide
    obtain ⟨-, hrest⟩ := List.forall_mem_cons.mp hpairs
    have htext : (Bracketing.mk (pair :: pairs) last hpairs hlast).text =
        pair.1 ++ '[' :: (pair.2 ++ ']' :: (Bracketing.mk pairs last hrest hlast).text) := by
      simp [text]
    rw [htext, Text.infix_append_cons_iff hopener, Text.infix_append_cons_iff hcloser, ih hrest,
      ← infix_piecesInside_iff pair.2]
    simp only [outside, Bracketing.offered, List.map_cons, List.cons_append, List.mem_cons,
      exists_eq_or_imp]
    rw [← or_assoc, or_or_or_comm]

/-- **A hole is made by a mark outside of the brackets or in a piece that was picked.** -/
theorem one_lt_length_literals_iff {b : Bracketing} {answers : List Nat}
    (h : answers.length = b.offered.length) :
    1 < (b.literals answers).length ↔ (∃ s ∈ b.outside, mark <:+: s) ∨
      ∃ piece ∈ b.chosen answers, mark <:+: piece.toList := by
  rw [length_literals h, Nat.lt_add_left_iff_pos, Nat.add_pos_iff_pos_or_pos,
    List.sum_pos_iff_exists_pos_nat, List.sum_pos_iff_exists_pos_nat]
  simp only [List.mem_map, exists_exists_and_eq_and, Text.occurrences_pos_iff]

/-- **Some chooser makes a hole exactly when the text holds a mark.** -/
theorem exists_hole_iff (b : Bracketing) :
    (∃ chooser : Chooser, 1 < (b.literals (chooser.answers [] b.offered)).length) ↔
      mark <:+: b.text := by
  rw [infix_text_iff]
  constructor
  · intro h
    obtain ⟨chooser, hhole⟩ := h
    rcases (one_lt_length_literals_iff (length_answers _ _ _)).mp hhole with h | h
    · exact Or.inl h
    · obtain ⟨piece, hpiece, hmark⟩ := h
      obtain ⟨pieces, hpieces, hmem⟩ := offered_of_picked b.ne_nil_of_mem_offered chooser [] hpiece
      exact Or.inr ⟨pieces, hpieces, piece, hmem, hmark⟩
  · intro h
    refine ⟨.seeking, (one_lt_length_literals_iff (length_answers _ _ _)).mpr ?_⟩
    rcases h with h | h
    · exact Or.inl h
    · exact Or.inr (exists_picked_seeking [] h)

end Bracketing

namespace Pattern

/-- A rendered pattern is its literal pieces with the name in the holes between them. -/
theorem render_text {p : Pattern} {b : Bracketing} (h : b.text = p.text.toList) (name : String)
    (chooser : Chooser) :
    (p.render name chooser).text.toList =
      name.toList.intercalate (b.literals (chooser.answers [] b.offered)) := by
  unfold render
  rw [segments_eq h, Bracketing.intercalate_literals]
  exact (b.renderFrom_segments name chooser []).2

theorem exists_bracketing (p : Pattern) : ∃ b : Bracketing, b.text = p.text.toList :=
  Segment.exists_bracketing (Segment.segments?_eq_some_iff.mp p.segments?_text)

/-- **With a slot some chooser lets every name be told from the text.** -/
theorem exists_render_injective {p : Pattern} (h : p.hasSlot = true) :
    ∃ chooser : Chooser, Function.Injective fun name => (p.render name chooser).text := by
  obtain ⟨b, hb⟩ := p.exists_bracketing
  have hmark : Segment.mark <:+: b.text := by
    rw [hb]
    exact p.hasSlot_iff.mp h
  obtain ⟨chooser, hhole⟩ := b.exists_hole_iff.mpr hmark
  refine ⟨chooser, ?_⟩
  intro name name' heq
  have htext : (p.render name chooser).text = (p.render name' chooser).text := heq
  refine String.toList_inj.mp (Text.intercalate_injective hhole ?_)
  show name.toList.intercalate _ = name'.toList.intercalate _
  rw [← render_text hb, ← render_text hb, htext]

/-- **Without a slot the name makes no difference.** -/
theorem render_eq_of_not_hasSlot {p : Pattern} (h : p.hasSlot = false) (chooser : Chooser)
    (name name' : String) : p.render name chooser = p.render name' chooser := by
  obtain ⟨b, hb⟩ := p.exists_bracketing
  -- A hole would be made by a mark in the text, whoever chooses.
  have hhole : (b.literals (chooser.answers [] b.offered)).length ≤ 1 := by
    by_contra hlt
    have hmark := b.exists_hole_iff.mp ⟨chooser, Nat.lt_of_not_le hlt⟩
    rw [hb, ← p.hasSlot_iff, h] at hmark
    cases hmark
  have htext : (p.render name chooser).text = (p.render name' chooser).text := by
    rw [← String.toList_inj, render_text hb, render_text hb]
    exact Text.intercalate_eq_of_length_le_one hhole _ _
  have hshown : (p.render name chooser).shown = (p.render name' chooser).shown := by
    rw [render_shown, render_shown]
  exact congrArg₂ Rendering.mk htext hshown

end Pattern

/-- **A pattern is about somebody exactly when `%s` stands in its text, and exactly when some way to
render it lets two actors be told apart.** Otherwise it says the same about everybody. -/
theorem hasSlot_iff_told {text : String} {rule : Rule} {f : Fact}
    (h : Fact.ofPattern text rule = .ok f) :
    (f.pattern.hasSlot = true ↔ Segment.mark <:+: text.toList) ∧
    (f.pattern.hasSlot = true ↔ ∃ (chooser : Chooser) (a b : Actor), a.name ≠ b.name ∧
      (f.pattern.render a.name chooser).text ≠ (f.pattern.render b.name chooser).text) ∧
    (f.pattern.hasSlot = false → ∀ (chooser : Chooser) (name name' : String),
      f.pattern.render name chooser = f.pattern.render name' chooser) := by
  obtain ⟨rfl, -⟩ := Fact.ofPattern_eq_ok_iff.mp h
  refine ⟨f.pattern.hasSlot_iff, ⟨?_, ?_⟩, Pattern.render_eq_of_not_hasSlot⟩
  · intro hslot
    obtain ⟨chooser, hinj⟩ := Pattern.exists_render_injective hslot
    have hne : (Actor.ofName "a").name ≠ (Actor.ofName "b").name := by decide
    exact ⟨chooser, .ofName "a", .ofName "b", hne, hinj.ne hne⟩
  · intro htold
    obtain ⟨chooser, a, b, -, htext⟩ := htold
    by_contra hslot
    have hsame :=
      Pattern.render_eq_of_not_hasSlot (Bool.eq_false_iff.mpr hslot) chooser a.name b.name
    exact htext (congrArg Rendering.text hsame)

/-- The slot is hidden in a piece that is not the first, so the first pieces alone tell nobody
apart. Without a slot nothing does, not even where a `%` stands before an `s` that may be picked. -/
theorem hasSlot_iff_told_hidden :
    (∃ f, Fact.ofPattern "[a,b] %[s, t %s]" .always = .ok f ∧
      f.pattern.about "P" = f.pattern.about "Q" ∧ f.pattern.hasSlot = true ∧
      ∃ (chooser : Chooser) (a b : Actor), a.name ≠ b.name ∧
        (f.pattern.render a.name chooser).text ≠ (f.pattern.render b.name chooser).text) ∧
    ∃ f, Fact.ofPattern "[a,b] %[s, t ]" .always = .ok f ∧ f.pattern.hasSlot = false ∧
      ∀ (chooser : Chooser) (name name' : String),
        f.pattern.render name chooser = f.pattern.render name' chooser := by
  let f : Fact := ⟨⟨"[a,b] %[s, t %s]", [.choice "a" ["b"], .text " %", .choice "s" ["t %s"]],
    by with_unfolding_all rfl⟩, .always⟩
  let g : Fact := ⟨⟨"[a,b] %[s, t ]", [.choice "a" ["b"], .text " %", .choice "s" ["t"]],
    by with_unfolding_all rfl⟩, .always⟩
  have hf : Fact.ofPattern "[a,b] %[s, t %s]" .always = .ok f :=
    Fact.ofPattern_eq_ok_iff.mpr ⟨rfl, rfl⟩
  have hg : Fact.ofPattern "[a,b] %[s, t ]" .always = .ok g :=
    Fact.ofPattern_eq_ok_iff.mpr ⟨rfl, rfl⟩
  have hslot : f.pattern.hasSlot = true := by decide
  have hno : g.pattern.hasSlot = false := by decide
  exact ⟨⟨f, hf, by decide, hslot, (hasSlot_iff_told hf).2.1.mp hslot⟩,
    g, hg, hno, (hasSlot_iff_told hg).2.2 hno⟩

end TagLogic
