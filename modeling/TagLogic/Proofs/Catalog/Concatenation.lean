import TagLogic.Proofs.Catalog.Loading
import TagLogic.Proofs.Text.Strip

/-!
# Lists of lines, one behind the other

A list of entries may be cut behind any line feed and read in two parts. Of the second part
nothing changes but the numbers, which go on from the line feeds of the first, and it is read only
if nothing is wrong with the first; this holds of the entries, of the errors and of what is
logged on the way (`readEntries_append`). It does not matter what is read from a line, an actor or
a fact, so the reader of a line is a parameter.

A blank line or a comment is a list without entries. So put in behind any line feed it makes
room for itself and does nothing else (`readEntries_insert`).

> `readEntries_outcome`: the outcome of two lists one behind the other, and of one with a line
> more that does not count.

Both texts of a catalog are read like this (`Catalog.load_eq_readEntries`).

A list of entries is what the operation `read_lines` goes through.
-/

namespace TagLogic

open Text (EndsLine dropReturn isSignificant isWhite lines significantLines)

/-! ## Lines that do not count -/

namespace Text

/-- Nothing stands on the line, or a comment. -/
inductive Idle : List Char → Prop
  | blank {line : List Char} : (∀ c ∈ line, isWhite c = true) → Idle line
  | comment {before rest : List Char} : (∀ c ∈ before, isWhite c = true) →
      Idle (before ++ '#' :: rest)

theorem isSignificant_blank {line : List Char} (h : ∀ c ∈ line, isWhite c = true) :
    isSignificant line = false := by
  rw [isSignificant, List.dropWhile_eq_nil_iff.mpr h]

/-- The first character that is not white decides. -/
theorem isSignificant_append_cons {before : List Char} (h : ∀ c ∈ before, isWhite c = true)
    {c : Char} (hc : isWhite c = false) (rest : List Char) :
    isSignificant (before ++ c :: rest) = (c != '#') := by
  have hrest : (c :: rest).dropWhile isWhite = c :: rest :=
    List.dropWhile_cons_of_neg (ne_true_of_eq_false hc)
  rw [isSignificant, List.dropWhile_append_of_pos h, hrest]

/-- **Blank lines and comments are the lines that are not significant.** -/
theorem isSignificant_eq_false_iff {line : List Char} : isSignificant line = false ↔ Idle line := by
  constructor
  · intro h
    rcases all_or_first isWhite line with hblank | ⟨before, c, rest, rfl, hbefore, hc⟩
    · exact .blank hblank
    · rw [isSignificant_append_cons hbefore hc] at h
      rw [bne_eq_false_iff_eq.mp h]
      exact .comment hbefore
  · intro h
    cases h with
    | blank hblank => exact isSignificant_blank hblank
    | comment hbefore => exact isSignificant_append_cons hbefore (by decide) _

/-- A line that does not count still does not without a carriage return at its end. -/
theorem Idle.dropReturn {line : List Char} (h : Idle line) : Idle (dropReturn line) := by
  cases h with
  | blank hblank =>
    refine .blank fun c hc => hblank c ?_
    unfold Text.dropReturn at hc
    split at hc
    next => exact (List.dropLast_sublist _).mem hc
    next => exact hc
  | @comment before rest hbefore =>
    unfold Text.dropReturn
    split
    next hlast =>
      -- The sign of the comment is no carriage return, so it stays.
      cases rest with
      | nil =>
        rw [List.getLast?_concat] at hlast
        exact absurd hlast (by decide)
      | cons c rest =>
        rw [List.dropLast_append_of_ne_nil (List.cons_ne_nil _ _),
          List.dropLast_cons_of_ne_nil (List.cons_ne_nil _ _)]
        exact .comment hbefore
    next => exact .comment hbefore

theorem significantLines_idle {line : String} (hfeed : '\n' ∉ line.toList)
    (h : Idle line.toList) : significantLines (line ++ "\n") = [] := by
  have hlines : lines (line ++ "\n").toList = [dropReturn line.toList] := by
    rw [String.toList_append]
    exact lines_feed hfeed []
  have hnot : isSignificant (dropReturn line.toList) = false :=
    isSignificant_eq_false_iff.mpr h.dropReturn
  have hnone : [(dropReturn line.toList, 1)].filter (fun l => isSignificant l.1) = [] :=
    List.filter_cons_of_neg (ne_true_of_eq_false hnot)
  rw [significantLines, hlines, List.zipIdx_singleton, hnone]
  rfl

/-- The number of a line after another was put in behind so many. -/
def makeRoom (behind number : Nat) : Nat := if number ≤ behind then number else number + 1

/-- **A line that does not count makes room for itself and does nothing else.** -/
theorem significantLines_insert {s line : String} (hs : EndsLine s.toList)
    (hfeed : '\n' ∉ line.toList) (h : Idle line.toList) (t : String) :
    significantLines (s ++ (line ++ "\n" ++ t)) =
      (significantLines (s ++ t)).map fun l => (makeRoom (s.toList.count '\n') l.1, l.2) := by
  have hends : EndsLine (line ++ "\n").toList := Or.inr ⟨line.toList, String.toList_append⟩
  have hcount : (line ++ "\n").toList.count '\n' = 1 := by
    rw [String.toList_append, List.count_append, List.count_eq_zero_of_not_mem hfeed]
    rfl
  have hfront : ∀ l ∈ significantLines s,
      (makeRoom (s.toList.count '\n') l.1, l.2) = l := by
    intro l hl
    rw [makeRoom, if_pos (number_le_of_mem hs hl)]
  have hback : ∀ l ∈ significantLines t,
      makeRoom (s.toList.count '\n') (s.toList.count '\n' + l.1) =
        s.toList.count '\n' + (1 + l.1) := by
    intro l hl
    have hpos := number_pos_of_mem hl
    rw [makeRoom, if_neg (by omega)]
    omega
  rw [significantLines_append hs, significantLines_append hends, significantLines_append hs,
    significantLines_idle hfeed h, hcount, List.nil_append, List.map_append, List.map_map,
    List.map_map, List.map_congr_left hfront, List.map_id']
  refine congrArg (significantLines s ++ ·) (List.map_congr_left fun l hl => ?_)
  exact congrArg (·, l.2) (hback l hl).symm

end Text

/-! ## Reading in two parts -/

/-- The error with another number for its line. -/
def LoadError.renumber (f : Nat → Nat) : LoadError → LoadError
  | .line number error => .line (f number) error
  | .file fault => .file fault

section

variable {α : Type} (read : String → Logged (Except FormatError α))

theorem readEach_append (ls ms : List (Nat × String)) :
    readEach read (ls ++ ms) =
      (readEach read ls).andThen fun as => (readEach read ms).map (·.map (as ++ ·)) := by
  induction ls with
  | nil =>
    rw [List.nil_append, readEach, Logged.andThen_of_ok rfl]
    cases readEach read ms with
    | mk value events => cases value <;> rfl
  | cons l ls ih =>
    obtain ⟨number, line⟩ := l
    have hcons : ∀ (entry : α) (as : List α),
        ((readEach read ms).map (·.map (as ++ ·))).map (·.map (entry :: ·)) =
          (readEach read ms).map (·.map (entry :: as ++ ·)) := by
      intro entry as
      cases readEach read ms with
      | mk value events => cases value <;> rfl
    rw [List.cons_append, readEach, readEach, ih, Logged.andThen_assoc]
    simp only [Logged.map_andThen, Logged.andThen_map, hcons]

/-- The numbers matter to nothing but the errors. -/
theorem readEach_renumber (f : Nat → Nat) (ls : List (Nat × String)) :
    readEach read (ls.map fun l => (f l.1, l.2)) =
      (readEach read ls).map (·.mapError (.renumber f)) := by
  induction ls with
  | nil => rfl
  | cons l ls ih =>
    obtain ⟨number, line⟩ := l
    have hfirst : ((read line).map (·.mapError (LoadError.line number))).map
        (·.mapError (LoadError.renumber f)) = (read line).map (·.mapError (.line (f number))) := by
      cases read line with
      | mk value events => cases value <;> rfl
    have hrest : ∀ entry : α,
        ((readEach read ls).map (·.map (entry :: ·))).map (·.mapError (LoadError.renumber f)) =
          ((readEach read ls).map (·.mapError (.renumber f))).map (·.map (entry :: ·)) := by
      intro entry
      cases readEach read ls with
      | mk value events => cases value <;> rfl
    rw [List.map_cons, readEach, readEach, ih, Logged.mapError_andThen, hfirst]
    simp only [hrest]

/-- Reads the entries of a text, one from each significant line. -/
def readEntries (text : String) : Logged (Except LoadError (List α)) :=
  readEach read (significantLines text)

/-- **Behind a text of whole lines another is read as it is read alone**, its lines numbered on. -/
theorem readEntries_append {s : String} (hs : EndsLine s.toList) (t : String) :
    readEntries read (s ++ t) = (readEntries read s).andThen fun as =>
      ((readEntries read t).map (·.mapError (.renumber (s.toList.count '\n' + ·)))).map
        (·.map (as ++ ·)) := by
  unfold readEntries
  rw [Text.significantLines_append hs, readEach_append,
    readEach_renumber read (s.toList.count '\n' + ·)]

theorem readEntries_insert {s line : String} (hs : EndsLine s.toList)
    (hfeed : '\n' ∉ line.toList) (hidle : Text.Idle line.toList) (t : String) :
    readEntries read (s ++ (line ++ "\n" ++ t)) =
      (readEntries read (s ++ t)).map
        (·.mapError (.renumber (Text.makeRoom (s.toList.count '\n')))) := by
  unfold readEntries
  rw [Text.significantLines_insert hs hfeed hidle,
    readEach_renumber read (Text.makeRoom (s.toList.count '\n'))]

variable {read}

/-- A list without a fault is read just so with a line more that does not count. -/
theorem readEntries_insert_of_ok {s line : String} (hs : EndsLine s.toList)
    (hfeed : '\n' ∉ line.toList) (hidle : Text.Idle line.toList) {t : String} {entries : List α}
    (h : (readEntries read (s ++ t)).value = .ok entries) :
    readEntries read (s ++ (line ++ "\n" ++ t)) = readEntries read (s ++ t) := by
  rw [readEntries_insert read hs hfeed hidle]
  cases hread : readEntries read (s ++ t) with
  | mk value events =>
    obtain rfl : value = .ok entries := by rwa [hread] at h
    rfl

/-- What is wrong with a list is wrong with one of its lines. -/
theorem exists_line_of_error {text : String} {e : LoadError}
    (h : (readEntries read text).value = .error e) : ∃ number source, e = .line number source := by
  unfold readEntries at h
  rw [value_readEach, mapM_eq_error_iff] at h
  obtain ⟨-, l, -, -, -, hl⟩ := h
  obtain ⟨source, -, rfl⟩ := readNumbered_eq_error_iff.mp hl
  exact ⟨l.1, source, rfl⟩

/-- **Lists of lines concatenate.** Behind a text that ends its last line another one is read as if
it stood alone: an error in front is told unchanged, an error behind with the line feeds in front
counted in, and otherwise the entries follow each other. A blank line or a comment put in between
changes no entry, and of the errors only the line numbers behind it. -/
theorem readEntries_outcome {s : String} (hs : EndsLine s.toList) (t : String) :
    (∀ e, (readEntries read s).value = .error e →
      (readEntries read (s ++ t)).value = .error e) ∧
    (∀ as e, (readEntries read s).value = .ok as → (readEntries read t).value = .error e →
      ∃ number source, e = .line number source ∧
        (readEntries read (s ++ t)).value =
          .error (.line (number + s.toList.count '\n') source)) ∧
    (∀ as bs, (readEntries read s).value = .ok as → (readEntries read t).value = .ok bs →
      (readEntries read (s ++ t)).value = .ok (as ++ bs)) ∧
    ∀ line : String, '\n' ∉ line.toList → Text.Idle line.toList →
      (∀ entries, (readEntries read (s ++ t)).value = .ok entries →
        (readEntries read (s ++ (line ++ "\n" ++ t))).value = .ok entries) ∧
      ∀ e, (readEntries read (s ++ t)).value = .error e →
        ∃ number source, e = .line number source ∧
          (readEntries read (s ++ (line ++ "\n" ++ t))).value =
            .error (.line (if number ≤ s.toList.count '\n' then number else number + 1)
              source) := by
  refine ⟨fun e he => ?_, fun as e has he => ?_, fun as bs has hbs => ?_,
    fun line hfeed hidle => ⟨fun entries h => ?_, fun e he => ?_⟩⟩
  · rw [readEntries_append read hs, Logged.andThen_of_error he]
  · obtain ⟨number, source, rfl⟩ := exists_line_of_error he
    refine ⟨number, source, rfl, ?_⟩
    rw [readEntries_append read hs, Logged.andThen_of_ok has, Logged.value_map, Logged.value_map,
      he, Nat.add_comm]
    rfl
  · rw [readEntries_append read hs, Logged.andThen_of_ok has, Logged.value_map, Logged.value_map,
      hbs]
    rfl
  · rw [readEntries_insert_of_ok hs hfeed hidle h, h]
  · obtain ⟨number, source, rfl⟩ := exists_line_of_error he
    refine ⟨number, source, rfl, ?_⟩
    rw [readEntries_insert read hs hfeed hidle, Logged.value_map, he]
    rfl

/-- Line ends of either style count in front of an actor without a name and of a rule with the wrong
closer; a comment put in before the faulty line counts too, and one put in behind it does not. -/
theorem readEntries_outcome_numbers :
    let actor := fun line => Logged.silent (Actor.ofLine line)
    let kaa : Actor := ⟨"Kaa", .ofList ["a"]⟩
    (readEntries actor ("|x\n" ++ "Pooh")).value = .error (.line 1 .emptyName) ∧
      (readEntries actor ("Kaa|a\r\n#\n" ++ "\n|x\nPooh")).value = .error (.line 4 .emptyName) ∧
      (readEntries actor ("Kaa|a\r\n#\n" ++ (" \t# |\r" ++ "\n" ++ "Pooh"))).value =
        .ok [kaa, .ofName "Pooh"] ∧
      (readEntries Fact.readLine ("\n" ++ ("# %s" ++ "\n" ++ "%s|(a]"))).value =
        .error (.line 3 (.badRule ⟨.wrongCloser .all ']', 2⟩)) ∧
      (readEntries Fact.readLine ("\n%s|(a]\n" ++ ("" ++ "\n" ++ "%s"))).value =
        .error (.line 2 (.badRule ⟨.wrongCloser .all ']', 2⟩)) := by
  intro actor kaa
  have hends : Text.EndsLine "Kaa|a\r\n#\n".toList := Or.inr ⟨"Kaa|a\r\n#".toList, rfl⟩
  have hkaa : (readEntries actor "Kaa|a\r\n#\n").value = .ok [kaa] := by with_unfolding_all rfl
  have hpooh : (readEntries actor "Pooh").value = .ok [.ofName "Pooh"] := by
    with_unfolding_all rfl
  have hnobody : (readEntries actor "|x\n").value = .error (.line 1 .emptyName) := by
    with_unfolding_all rfl
  have hbehind : (readEntries actor "\n|x\nPooh").value = .error (.line 2 .emptyName) := by
    with_unfolding_all rfl
  have hfact : (readEntries Fact.readLine ("\n" ++ "%s|(a]")).value =
      .error (.line 2 (.badRule ⟨.wrongCloser .all ']', 2⟩)) := by with_unfolding_all rfl
  have hfront : (readEntries Fact.readLine ("\n%s|(a]\n" ++ "%s")).value =
      .error (.line 2 (.badRule ⟨.wrongCloser .all ']', 2⟩)) := by with_unfolding_all rfl
  have hboth := (readEntries_outcome hends "Pooh").2.2.1 _ _ hkaa hpooh
  refine ⟨(readEntries_outcome (Or.inr ⟨['|', 'x'], rfl⟩) "Pooh").1 _ hnobody, ?_, ?_, ?_, ?_⟩
  · obtain ⟨number, source, he, hread⟩ :=
      (readEntries_outcome hends "\n|x\nPooh").2.1 _ _ hkaa hbehind
    cases he
    exact hread
  · have hidle : Text.Idle " \t# |\r".toList :=
      @Text.Idle.comment [' ', '\t'] [' ', '|', '\r']
        (List.all_eq_true.mp (by decide))
    exact ((readEntries_outcome hends "Pooh").2.2.2 _ (by decide) hidle).1 _ hboth
  · have hidle : Text.Idle "# %s".toList :=
      @Text.Idle.comment [] [' ', '%', 's'] (List.forall_mem_nil _)
    obtain ⟨number, source, he, hread⟩ :=
      ((readEntries_outcome (Or.inr ⟨[], rfl⟩) "%s|(a]").2.2.2 _ (by decide) hidle).2 _ hfact
    cases he
    exact hread
  · have hidle : Text.Idle "".toList := .blank (List.forall_mem_nil _)
    have hends' : Text.EndsLine "\n%s|(a]\n".toList := Or.inr ⟨"\n%s|(a]".toList, rfl⟩
    obtain ⟨number, source, he, hread⟩ :=
      ((readEntries_outcome hends' "%s").2.2.2 _ (by decide) hidle).2 _ hfront
    cases he
    exact hread

end

/-! ## In a catalog -/

namespace Catalog

/-- Both lists of a catalog are read so, the facts once the actors are. -/
theorem load_eq_readEntries (actors facts : String) :
    load actors facts = (readEntries (fun line => .silent (Actor.ofLine line)) actors).andThen
      fun as => (readEntries Fact.readLine facts).andThen fun fs =>
        ⟨.ok ⟨as, fs⟩, [.loaded as.length fs.length]⟩ := rfl

/-- **A blank line or a comment more in either text changes no catalog** and nothing that is logged
on the way to it. -/
theorem load_insert {s line : String} (hs : EndsLine s.toList) (hfeed : '\n' ∉ line.toList)
    (hidle : Text.Idle line.toList) {t other : String} {c : Catalog} :
    ((load (s ++ t) other).value = .ok c →
        load (s ++ (line ++ "\n" ++ t)) other = load (s ++ t) other) ∧
      ((load other (s ++ t)).value = .ok c →
        load other (s ++ (line ++ "\n" ++ t)) = load other (s ++ t)) := by
  simp only [load_eq_readEntries]
  constructor
  · intro h
    obtain ⟨as, hactors, -⟩ := Logged.exists_ok_of_andThen h
    rw [readEntries_insert_of_ok hs hfeed hidle hactors]
  · intro h
    obtain ⟨as, -, hrest⟩ := Logged.exists_ok_of_andThen h
    obtain ⟨fs, hfacts, -⟩ := Logged.exists_ok_of_andThen hrest
    rw [readEntries_insert_of_ok hs hfeed hidle hfacts]

end Catalog

end TagLogic
