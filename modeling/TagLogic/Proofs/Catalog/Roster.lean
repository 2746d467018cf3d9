import TagLogic.Proofs.Actor.Line
import TagLogic.Proofs.Catalog.Loading

/-!
# Lists of actors, written and read again

Actors are written one below the other, each on its line. For the list to come back, each
line has to tell its actor (`Actor.FitsLine`), and each has to be found again among the
lines: no line feed may stand inside of it, and it may not look like a comment. White space
at its end, a carriage return among it, is ruled out already, since neither a name nor a
tag ends so.

> `load_roster`: actors that fit a list are loaded back from it, and what was ever loaded
> fits a list, so writing what was loaded and loading it again changes nothing.

They are loaded by the operation `from_strs`.
-/

namespace TagLogic

open Text (IsBody Trimmed isSignificant isWhite lines trim)

namespace Actor

/-- A line among others has a place for all that the actor holds. -/
structure FitsList (a : Actor) : Prop extends a.FitsLine where
  feed_not_mem_name : '\n' ∉ a.name.toList
  head?_name_ne_comment : a.name.toList.head? ≠ some '#'
  feed_not_mem_tag : ∀ tag ∈ a.tags.toList, '\n' ∉ tag.toList

instance (a : Actor) : Decidable a.FitsList :=
  decidable_of_iff
    (a.FitsLine ∧ '\n' ∉ a.name.toList ∧ a.name.toList.head? ≠ some '#' ∧
      ∀ tag ∈ a.tags.toList, '\n' ∉ tag.toList)
    ⟨fun h => ⟨h.1, h.2.1, h.2.2.1, h.2.2.2⟩,
    fun h => ⟨h.toFitsLine, h.feed_not_mem_name, h.head?_name_ne_comment, h.feed_not_mem_tag⟩⟩

/-! ## The line of an actor among others -/

/-- The line begins as the name does. -/
theorem head?_toLine {a : Actor} (h : a.FitsLine) :
    a.toLine.toList.head? = a.name.toList.head? := by
  by_cases hnil : a.tags.toList = []
  · rw [toList_toLine_of_nil hnil]
  · rw [toList_toLine hnil, List.append_assoc, List.head?_append,
      List.head?_eq_some_head h.toList_name_ne_nil, Option.some_or]

/-- The line ends as the name or one of the tags does. -/
theorem isWhite_getLast?_toLine {a : Actor} (h : a.FitsLine) :
    ∀ c ∈ a.toLine.toList.getLast?, isWhite c = false := by
  intro c hc
  by_cases hnil : a.tags.toList = []
  · rw [toList_toLine_of_nil hnil] at hc
    exact h.name_trimmed.2 c hc
  · rw [toList_toLine hnil, List.getLast?_append, List.getLast?_cons, Option.some_or,
      Option.mem_some_iff] at hc
    by_cases hend : (tagText a.tags.toList).getLast? = none
    · rw [hend] at hc
      subst hc
      decide
    · obtain ⟨d, hd⟩ := Option.ne_none_iff_exists'.mp hend
      rw [hd] at hc
      subst hc
      obtain ⟨tag, htag, hlast⟩ := getLast?_tagText h.tag_ne_empty hd
      exact (h.tag_trimmed tag htag).2 d hlast

theorem feed_not_mem_toLine {a : Actor} (h : a.FitsList) : '\n' ∉ a.toLine.toList := by
  intro hfeed
  by_cases hnil : a.tags.toList = []
  · rw [toList_toLine_of_nil hnil] at hfeed
    exact h.feed_not_mem_name hfeed
  · rw [toList_toLine hnil] at hfeed
    rcases List.mem_append.mp hfeed with hfeed | hfeed
    · rcases List.mem_append.mp hfeed with hname | hspace
      · exact h.feed_not_mem_name hname
      · exact absurd hspace (by decide)
    · rcases List.mem_cons.mp hfeed with hbar | htags
      · exact absurd hbar (by decide)
      · rcases mem_tagText htags with hcomma | hspace | ⟨tag, htag, hc⟩
        · exact absurd hcomma (by decide)
        · exact absurd hspace (by decide)
        · exact h.feed_not_mem_tag tag htag hc

theorem isBody_toLine {a : Actor} (h : a.FitsList) : IsBody a.toLine.toList := by
  refine ⟨?_, feed_not_mem_toLine h, ?_⟩
  · intro hnil
    have hhead := head?_toLine h.toFitsLine
    rw [hnil, List.head?_eq_some_head h.toList_name_ne_nil] at hhead
    cases hhead
  · intro hreturn
    have hwhite := isWhite_getLast?_toLine h.toFitsLine '\r' hreturn
    exact absurd hwhite (by decide)

theorem isSignificant_toLine {a : Actor} (h : a.FitsList) :
    isSignificant a.toLine.toList = true := by
  have hhead := head?_toLine h.toFitsLine
  have hkeep : a.toLine.toList.dropWhile isWhite = a.toLine.toList := by
    refine Text.dropWhile_eq_self_iff_head?.mpr fun c hc => h.name_trimmed.1 c ?_
    rw [← hhead]
    exact hc
  unfold isSignificant
  rw [hkeep]
  split
  next hnil => exact absurd hnil (isBody_toLine h).ne_nil
  next c rest heq =>
    rw [heq, List.head?_cons] at hhead
    have hne : c ≠ '#' := fun he => h.head?_name_ne_comment (by rw [← hhead, he])
    simpa using hne

/-- The name begins where the line does, white space aside. -/
theorem head?_name_of_ofLine {line : List Char} {a : Actor} (h : ofLine (.ofList line) = .ok a) :
    a.name.toList.head? = (line.dropWhile isWhite).head? := by
  obtain ⟨hname, rfl⟩ := ofLine_eq_ok_iff.mp h
  rw [String.toList_ofList] at hname
  rw [String.toList_ofList, String.toList_ofList]
  have hfront : (line.takeWhile (· != '|')).dropWhile isWhite ≠ [] := by
    intro hnil
    unfold trim Text.strip Text.cutAt at hname
    rw [hnil] at hname
    exact hname rfl
  have hline : line.dropWhile isWhite =
      (line.takeWhile (· != '|')).dropWhile isWhite ++ line.dropWhile (· != '|') := by
    conv => lhs; rw [← List.takeWhile_append_dropWhile (p := (· != '|')) (l := line)]
    rw [List.dropWhile_append, if_neg (by simpa using hfront)]
  unfold trim at hname ⊢
  rw [Text.head?_strip hname, hline, List.head?_append, List.head?_eq_some_head hfront,
    Option.some_or, ← List.head?_eq_some_head hfront]
  rfl

/-- **Every actor that was read from a significant line fits a list.** -/
theorem fitsList_of_ofLine {s line : List Char} {a : Actor} (hline : line ∈ lines s)
    (hsig : isSignificant line = true) (h : ofLine (.ofList line) = .ok a) : a.FitsList := by
  have hfeed : '\n' ∉ (String.ofList line).toList := by
    rw [String.toList_ofList]
    exact Text.not_mem_of_mem_lines hline
  refine ⟨fitsLine_of_ofLine h, ?_, ?_, ?_⟩
  · exact fun hmem => hfeed (mem_line_of_ofLine h (Or.inl hmem))
  · intro hcomment
    rw [head?_name_of_ofLine h] at hcomment
    unfold isSignificant at hsig
    split at hsig
    next => cases hsig
    next c rest heq =>
      rw [heq, List.head?_cons, Option.some.injEq] at hcomment
      subst hcomment
      exact absurd hsig (by decide)
  · exact fun tag htag hmem => hfeed (mem_line_of_ofLine h (Or.inr ⟨tag, htag, hmem⟩))

end Actor

namespace Catalog

/-- The lines of the actors, one below the other. -/
def roster (as : List Actor) : String := "\n".intercalate (as.map Actor.toLine)

theorem lines_roster {as : List Actor} (h : ∀ a ∈ as, a.FitsList) :
    lines (roster as).toList = as.map fun a => a.toLine.toList := by
  have hbodies : ∀ body ∈ as.map (fun a => a.toLine.toList), IsBody body := by
    intro body hbody
    obtain ⟨a, ha, rfl⟩ := List.mem_map.mp hbody
    exact Actor.isBody_toLine (h a ha)
  unfold roster
  rw [String.toList_intercalate, List.map_map]
  exact Text.lines_intercalate hbodies

/-- Each line of a roster tells its actor. -/
theorem readings_roster {as : List Actor} (h : ∀ a ∈ as, a.FitsList) :
    Readings Actor.ofLine (roster as) as := by
  have hsig : (as.map fun a => a.toLine.toList).filter isSignificant =
      as.map fun a => a.toLine.toList := by
    refine List.filter_eq_self.mpr fun line hline => ?_
    obtain ⟨a, ha, rfl⟩ := List.mem_map.mp hline
    exact Actor.isSignificant_toLine (h a ha)
  unfold Readings
  rw [lines_roster h, hsig, List.map_map]
  refine List.map_congr_left fun a ha => ?_
  rw [Function.comp_apply, String.ofList_toList]
  exact Actor.ofLine_toLine (h a ha).toFitsLine

/-- What was loaded fits a list. -/
theorem fitsList_of_load {actors facts : String} {c : Catalog}
    (h : (load actors facts).value = .ok c) : ∀ a ∈ c.actors, a.FitsList := by
  intro a ha
  obtain ⟨line, hline, hsig, hread⟩ := (load_eq_ok_iff.mp h).1.exists_line ha
  exact Actor.fitsList_of_ofLine hline hsig hread

/-- **Actors that fit a list are loaded back from it, and all that was loaded fits a list**, so
writing and loading again gives the same actors, and with the same facts the same catalog. -/
theorem load_roster :
    (∀ as : List Actor, (∀ a ∈ as, a.FitsList) → (load (roster as) "").value = .ok ⟨as, []⟩) ∧
    ∀ actors facts c, (load actors facts).value = .ok c →
      (∀ a ∈ c.actors, a.FitsList) ∧
      (load (roster c.actors) "").value = .ok ⟨c.actors, []⟩ ∧
      (load (roster c.actors) facts).value = .ok c := by
  have hwrite : ∀ as : List Actor, (∀ a ∈ as, a.FitsList) →
      (load (roster as) "").value = .ok ⟨as, []⟩ :=
    fun as has => load_eq_ok_iff.mpr ⟨readings_roster has, rfl⟩
  refine ⟨hwrite, fun actors facts c h => ?_⟩
  have hfits : ∀ a ∈ c.actors, a.FitsList := fitsList_of_load h
  exact ⟨hfits, hwrite c.actors hfits,
    load_eq_ok_iff.mpr ⟨readings_roster hfits, (load_eq_ok_iff.mp h).2⟩⟩

/-- A bar and a comment sign are no harm inside a tag, nor a carriage return inside a name; what was
loaded is written more plainly, and loaded again. -/
theorem load_roster_plain :
    let odd : Actor := ⟨"Ka\ra", .ofList ["#b|c", "a d"]⟩
    let c : Catalog := ⟨[⟨"Kaa", .ofList ["#", "x"]⟩, ⟨"Baloo", .empty⟩], []⟩
    (load (roster [odd]) "").value = .ok ⟨[odd], []⟩ ∧
      (load " Kaa |x,, # ,x\r\n\t# none\n\nBaloo|" "").value = .ok c ∧
      roster c.actors = "Kaa | #, x\nBaloo" ∧ (load (roster c.actors) "").value = .ok c := by
  intro odd c
  have h : (load " Kaa |x,, # ,x\r\n\t# none\n\nBaloo|" "").value = .ok c := by
    with_unfolding_all rfl
  exact ⟨load_roster.1 [odd] (by decide), h, by decide, (load_roster.2 _ "" c h).2.2⟩

end Catalog

end TagLogic
