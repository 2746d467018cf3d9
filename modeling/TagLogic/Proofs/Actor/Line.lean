import TagLogic.Actor
import TagLogic.Proofs.Text.Joined
import TagLogic.Proofs.Text.Trimmed

/-!
# Actors that a line can tell

A line says less than an actor may hold: it has no place for an empty name or an empty tag,
for white space at their ends, for a bar in the name or a comma in a tag. `FitsLine` is the
list of these, and it is complete on both sides:

- `ofLine_toLine` — an actor that fits is read back from its line;
- `fitsLine_of_ofLine` — every actor that was read from a line fits.

> `ofLine_toLine_iff`: so an actor is read back from its line exactly when it fits, and what was
> read once stays the same however often it is written and read.

The line is the display form of an actor, and the operation `from_str` reads it.
-/

namespace TagLogic

namespace Actor

open Text (Trimmed trim)

/-- A line has a place for all that the actor holds. -/
structure FitsLine (a : Actor) : Prop where
  name_ne_empty : a.name ≠ ""
  name_trimmed : Trimmed a.name.toList
  bar_not_mem_name : '|' ∉ a.name.toList
  tag_ne_empty : ∀ tag ∈ a.tags.toList, tag ≠ ""
  tag_trimmed : ∀ tag ∈ a.tags.toList, Trimmed tag.toList
  comma_not_mem_tag : ∀ tag ∈ a.tags.toList, ',' ∉ tag.toList

instance (a : Actor) : Decidable a.FitsLine :=
  decidable_of_iff
    (a.name ≠ "" ∧ Trimmed a.name.toList ∧ '|' ∉ a.name.toList ∧
      ∀ tag ∈ a.tags.toList, tag ≠ "" ∧ Trimmed tag.toList ∧ ',' ∉ tag.toList)
    ⟨fun h => ⟨h.1, h.2.1, h.2.2.1, fun tag ht => (h.2.2.2 tag ht).1,
      fun tag ht => (h.2.2.2 tag ht).2.1, fun tag ht => (h.2.2.2 tag ht).2.2⟩,
    fun h => ⟨h.name_ne_empty, h.name_trimmed, h.bar_not_mem_name,
      fun tag ht => ⟨h.tag_ne_empty tag ht, h.tag_trimmed tag ht, h.comma_not_mem_tag tag ht⟩⟩⟩

theorem FitsLine.toList_name_ne_nil {a : Actor} (h : a.FitsLine) : a.name.toList ≠ [] :=
  mt String.toList_eq_nil_iff.mp h.name_ne_empty

/-! ## Writing -/

/-- The tags as they stand behind the bar. -/
def tagText (tags : List String) : List Char :=
  [','].intercalate (tags.map fun tag => ' ' :: tag.toList)

/-- All that stands there are the tags, the commas and the spaces. -/
theorem mem_tagText {tags : List String} {c : Char} (h : c ∈ tagText tags) :
    c = ',' ∨ c = ' ' ∨ ∃ tag ∈ tags, c ∈ tag.toList := by
  rcases Text.mem_intercalate h with hcomma | ⟨part, hpart, hc⟩
  · exact Or.inl (List.mem_singleton.mp hcomma)
  · obtain ⟨tag, htag, rfl⟩ := List.mem_map.mp hpart
    rcases List.mem_cons.mp hc with hspace | hc
    · exact Or.inr (Or.inl hspace)
    · exact Or.inr (Or.inr ⟨tag, htag, hc⟩)

/-- It ends as one of the tags does. -/
theorem getLast?_tagText {tags : List String} {c : Char} (hne : ∀ tag ∈ tags, tag ≠ "")
    (h : c ∈ (tagText tags).getLast?) : ∃ tag ∈ tags, c ∈ tag.toList.getLast? := by
  have hparts : ∀ part ∈ tags.map (fun tag => ' ' :: tag.toList), part ≠ [] := by
    intro part hpart
    obtain ⟨tag, -, rfl⟩ := List.mem_map.mp hpart
    exact List.cons_ne_nil _ _
  obtain ⟨part, hpart, hlast⟩ := Text.getLast?_intercalate hparts h
  obtain ⟨tag, htag, rfl⟩ := List.mem_map.mp hpart
  have htagne : tag.toList ≠ [] := mt String.toList_eq_nil_iff.mp (hne tag htag)
  rw [List.getLast?_cons, List.getLast?_eq_some_getLast htagne, Option.getD_some,
    ← List.getLast?_eq_some_getLast htagne] at hlast
  exact ⟨tag, htag, hlast⟩

theorem toList_toLine_of_nil {a : Actor} (h : a.tags.toList = []) :
    a.toLine.toList = a.name.toList := by
  unfold toLine hasTags
  simp [h]

/-- Behind the name stand a bar and the tags, each with a space before it. -/
theorem toList_toLine {a : Actor} (h : a.tags.toList ≠ []) :
    a.toLine.toList = (a.name.toList ++ [' ']) ++ '|' :: tagText a.tags.toList := by
  have hmap : a.tags.toList.map String.toList ≠ [] := mt List.map_eq_nil_iff.mp h
  have htags : ' ' :: [',', ' '].intercalate (a.tags.toList.map String.toList) =
      tagText a.tags.toList := by
    rw [show [',', ' '] = [','] ++ [' '] from rfl, Text.cons_intercalate [','] ' ' hmap,
      List.map_map]
    rfl
  unfold toLine hasTags
  rw [if_pos (by simpa using h), String.toList_append, String.toList_append,
    String.toList_intercalate, ← htags, List.append_assoc, List.append_assoc]
  rfl

/-! ## Reading -/

theorem mem_tagsOfText_iff {s : List Char} {tag : String} :
    tag ∈ tagsOfText s ↔ ∃ piece ∈ s.splitOn ',', trim piece ≠ [] ∧ tag = .ofList (trim piece) := by
  unfold tagsOfText
  simp only [List.mem_map, List.mem_filter, decide_eq_true_eq]
  constructor
  · intro h
    obtain ⟨t, ⟨⟨piece, hpiece, rfl⟩, hne⟩, rfl⟩ := h
    exact ⟨piece, hpiece, hne, rfl⟩
  · intro h
    obtain ⟨piece, hpiece, hne, rfl⟩ := h
    exact ⟨trim piece, ⟨⟨piece, hpiece, rfl⟩, hne⟩, rfl⟩

/-- **A line tells an actor exactly when its name part is not blank**, and this is who. -/
theorem ofLine_eq_ok_iff {line : String} {a : Actor} :
    ofLine line = .ok a ↔ trim (Text.cutAt '|' line.toList).1 ≠ [] ∧
      a = ⟨.ofList (trim (Text.cutAt '|' line.toList).1),
        .ofList (tagsOfText ((Text.cutAt '|' line.toList).2.getD []))⟩ := by
  unfold ofLine
  dsimp only
  split
  next hnil => simp [hnil]
  next name hne =>
    rw [Except.ok.injEq, eq_comm]
    exact (and_iff_right hne).symm

/-- Tags that fit are read back. -/
theorem tagsOfText_tagText {tags : List String} (hne : ∀ tag ∈ tags, tag ≠ "")
    (htrimmed : ∀ tag ∈ tags, Trimmed tag.toList) (hcomma : ∀ tag ∈ tags, ',' ∉ tag.toList) :
    tagsOfText (tagText tags) = tags := by
  by_cases hnil : tags = []
  · subst hnil
    rfl
  have hpieces : (tagText tags).splitOn ',' = tags.map fun tag => ' ' :: tag.toList := by
    refine List.splitOn_intercalate ',' (fun piece hpiece => ?_) (mt List.map_eq_nil_iff.mp hnil)
    obtain ⟨tag, htag, rfl⟩ := List.mem_map.mp hpiece
    intro hmem
    rcases List.mem_cons.mp hmem with h | h
    · exact absurd h (by decide)
    · exact hcomma tag htag h
  have htrim : ((tagText tags).splitOn ',').map trim = tags.map String.toList := by
    rw [hpieces, List.map_map]
    refine List.map_congr_left fun tag htag => ?_
    have hbetween := Text.strip_between (List.forall_mem_singleton.mpr Text.isWhite_space)
      (Text.trim_eq_self (htrimmed tag htag)) (List.forall_mem_nil _)
    rwa [List.append_nil] at hbetween
  have hfilter : (tags.map String.toList).filter (· ≠ []) = tags.map String.toList := by
    refine List.filter_eq_self.mpr fun t ht => ?_
    obtain ⟨tag, htag, rfl⟩ := List.mem_map.mp ht
    exact decide_eq_true (mt String.toList_eq_nil_iff.mp (hne tag htag))
  unfold tagsOfText
  rw [htrim, hfilter, List.map_map]
  exact (List.map_congr_left fun tag _ => String.ofList_toList).trans (List.map_id tags)

/-- **An actor that fits is read back from its line.** -/
theorem ofLine_toLine {a : Actor} (h : a.FitsLine) : ofLine a.toLine = .ok a := by
  have hname := h.toList_name_ne_nil
  rw [ofLine_eq_ok_iff]
  by_cases hnil : a.tags.toList = []
  · have htags : a.tags = .ofList (tagsOfText []) := by
      rw [← TagSet.ofList_toList a.tags, hnil]
      rfl
    rw [toList_toLine_of_nil hnil, Text.cutAt_of_not_mem h.bar_not_mem_name]
    dsimp only
    rw [Text.trim_eq_self h.name_trimmed, String.ofList_toList]
    exact ⟨hname, congrArg (Actor.mk a.name) htags⟩
  · have hbar : '|' ∉ a.name.toList ++ [' '] := by
      intro hmem
      rcases List.mem_append.mp hmem with hmem | hmem
      · exact h.bar_not_mem_name hmem
      · exact absurd hmem (by decide)
    have htrim : trim (a.name.toList ++ [' ']) = a.name.toList :=
      Text.strip_between (List.forall_mem_nil _) (Text.trim_eq_self h.name_trimmed)
        (List.forall_mem_singleton.mpr Text.isWhite_space)
    have htags : a.tags = .ofList (tagsOfText (tagText a.tags.toList)) := by
      rw [tagsOfText_tagText h.tag_ne_empty h.tag_trimmed h.comma_not_mem_tag,
        TagSet.ofList_toList]
    rw [toList_toLine hnil, Text.cutAt_append_cons hbar]
    dsimp only
    rw [htrim, String.ofList_toList]
    exact ⟨hname, congrArg (Actor.mk a.name) htags⟩

/-- A trimmed text that shows something, as a name or a tag. -/
theorem ofList_trim_ne_empty {s : List Char} (h : trim s ≠ []) : String.ofList (trim s) ≠ "" := by
  intro hempty
  refine h ?_
  rw [← String.toList_ofList (l := trim s), hempty]
  rfl

/-- **Every actor that was read from a line fits.** -/
theorem fitsLine_of_ofLine {line : String} {a : Actor} (h : ofLine line = .ok a) : a.FitsLine := by
  obtain ⟨hname, rfl⟩ := ofLine_eq_ok_iff.mp h
  have hpiece : ∀ tag ∈ (TagSet.ofList (tagsOfText
      ((Text.cutAt '|' line.toList).2.getD []))).toList,
      ∃ piece, ',' ∉ piece ∧ trim piece ≠ [] ∧ tag = .ofList (trim piece) := by
    intro tag htag
    obtain ⟨piece, hpiece, hne, rfl⟩ := mem_tagsOfText_iff.mp (TagSet.mem_ofList.mp htag)
    exact ⟨piece, Text.not_mem_of_mem_splitOn hpiece, hne, rfl⟩
  refine ⟨ofList_trim_ne_empty hname, ?_, ?_, ?_, ?_, ?_⟩
  · rw [String.toList_ofList]
    exact Text.trimmed_trim _
  · rw [String.toList_ofList]
    intro hbar
    have hcut : '|' ∈ line.toList.takeWhile (· != '|') := Text.mem_of_mem_strip hbar
    have hnot := List.all_eq_true.mp List.all_takeWhile '|' hcut
    exact absurd hnot (by decide)
  · intro tag htag
    obtain ⟨piece, -, hne, rfl⟩ := hpiece tag htag
    exact ofList_trim_ne_empty hne
  · intro tag htag
    obtain ⟨piece, -, -, rfl⟩ := hpiece tag htag
    rw [String.toList_ofList]
    exact Text.trimmed_trim piece
  · intro tag htag
    obtain ⟨piece, hcomma, -, rfl⟩ := hpiece tag htag
    rw [String.toList_ofList]
    exact fun hmem => hcomma (Text.mem_of_mem_strip hmem)

/-- Nothing is read that does not stand on the line. -/
theorem mem_line_of_ofLine {line : String} {a : Actor} {c : Char} (h : ofLine line = .ok a)
    (hc : c ∈ a.name.toList ∨ ∃ tag ∈ a.tags.toList, c ∈ tag.toList) : c ∈ line.toList := by
  obtain ⟨-, rfl⟩ := ofLine_eq_ok_iff.mp h
  rcases hc with hname | htag
  · rw [String.toList_ofList] at hname
    exact (List.takeWhile_sublist _).mem (Text.mem_of_mem_strip hname)
  · obtain ⟨tag, htag, hc⟩ := htag
    obtain ⟨piece, hpiece, -, rfl⟩ := mem_tagsOfText_iff.mp (TagSet.mem_ofList.mp htag)
    rw [String.toList_ofList] at hc
    have hrest : c ∈ (Text.cutAt '|' line.toList).2.getD [] :=
      Text.mem_of_mem_piece hpiece (Text.mem_of_mem_strip hc)
    refine (List.dropWhile_sublist (· != '|')).mem ?_
    unfold Text.cutAt at hrest
    cases hdrop : line.toList.dropWhile (· != '|') with
    | nil =>
      rw [hdrop] at hrest
      exact absurd hrest List.not_mem_nil
    | cons bar rest =>
      rw [hdrop] at hrest
      exact List.mem_cons_of_mem bar hrest

/-- **An actor is read back from its line exactly when it fits**, however it came about; what was
read from a line fits, so writing it and reading it again succeeds and changes nothing. -/
theorem ofLine_toLine_iff :
    (∀ a : Actor, ofLine a.toLine = .ok a ↔ a.FitsLine) ∧
    ∀ line a, ofLine line = .ok a → a.FitsLine ∧ ofLine a.toLine = .ok a := by
  refine ⟨fun a => ⟨fitsLine_of_ofLine, ofLine_toLine⟩, fun line a h => ?_⟩
  have hfits : a.FitsLine := fitsLine_of_ofLine h
  exact ⟨hfits, ofLine_toLine hfits⟩

/-- A tag may hold a bar and white space inside; a comma in it makes two of it. -/
theorem ofLine_toLine_iff_bar :
    let a : Actor := ⟨"Kaa", .ofList ["x | y", "#"]⟩
    let b : Actor := ⟨"Kaa", .ofList ["x,y"]⟩
    ofLine " Kaa|x | y,, # ,x | y\r" = .ok a ∧ a.toLine = "Kaa | #, x | y" ∧
      a.FitsLine ∧ ofLine a.toLine = .ok a ∧ ofLine b.toLine ≠ .ok b := by
  intro a b
  have h : ofLine " Kaa|x | y,, # ,x | y\r" = .ok a := ofLine_eq_ok_iff.mpr (by decide)
  obtain ⟨hfits, hread⟩ := ofLine_toLine_iff.2 _ a h
  exact ⟨h, by decide, hfits, hread, mt (ofLine_toLine_iff.1 b).mp (by decide)⟩

end Actor

end TagLogic
