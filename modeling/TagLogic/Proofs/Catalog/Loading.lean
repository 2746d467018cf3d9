import TagLogic.Catalog.Load
import TagLogic.Proofs.Text.Line

/-!
# All lines, or the first faulty one

Two texts are loaded as a catalog exactly when every significant line of both can be
read, and then the catalog has one entry for each of them, in order. Otherwise the first
faulty line of the actors is told, or the first one of the facts if the actors have none.
Faulty lines are told by their number among all lines, so the statement goes back to the
text itself (`Text.IsLine`): what is numbered is not what is read.

> `load_outcome`: which catalog two texts load as, and which error they fail with.

A traversal that stops at the first error is settled by `mapM_eq_error_iff` and
`mapM_eq_ok_iff`; for the lines of a text the first error is at the smallest number
(`readLines_eq_error_iff`), and all readings come one for each line
(`readLines_eq_ok_iff`).

The operation is `from_strs`, which goes through both texts by `read_lines`.
-/

namespace TagLogic

/-! ## Traversals that stop at the first error -/

section

variable {α β ε : Type}

theorem mapM_cons_ok {f : α → Except ε β} {x : α} {b : β} (h : f x = .ok b) (xs : List α) :
    (x :: xs).mapM f = (xs.mapM f).map (b :: ·) := by
  rw [List.mapM_cons, h]
  cases xs.mapM f <;> rfl

theorem mapM_cons_error {f : α → Except ε β} {x : α} {e : ε} (h : f x = .error e) (xs : List α) :
    (x :: xs).mapM f = .error e := by
  rw [List.mapM_cons, h]
  rfl

/-- **The error of a traversal is that of an element behind others that have none.** -/
theorem mapM_eq_error_iff {f : α → Except ε β} {xs : List α} {e : ε} :
    xs.mapM f = .error e ↔ ∃ before x after, xs = before ++ x :: after ∧
      (∀ y ∈ before, ∃ b, f y = .ok b) ∧ f x = .error e := by
  induction xs with
  | nil =>
    constructor
    · intro h
      cases h
    · rintro ⟨before, x, after, h, -⟩
      cases before <;> cases h
  | cons y xs ih =>
    cases hy : f y with
    | error e' =>
      rw [mapM_cons_error hy]
      constructor
      · intro h
        cases h
        exact ⟨[], y, xs, rfl, List.forall_mem_nil _, hy⟩
      · rintro ⟨before, x, after, hsplit, hbefore, hx⟩
        cases before with
        | nil =>
          cases hsplit
          rw [hy] at hx
          cases hx
          rfl
        | cons z before =>
          cases hsplit
          obtain ⟨b, hb⟩ := hbefore y List.mem_cons_self
          rw [hy] at hb
          cases hb
    | ok b =>
      rw [mapM_cons_ok hy]
      constructor
      · intro h
        cases hxs : xs.mapM f with
        | ok bs =>
          rw [hxs] at h
          cases h
        | error e' =>
          rw [hxs] at h
          cases h
          obtain ⟨before, x, after, rfl, hbefore, hx⟩ := ih.mp hxs
          exact ⟨y :: before, x, after, rfl, List.forall_mem_cons.mpr ⟨⟨b, hy⟩, hbefore⟩, hx⟩
      · rintro ⟨before, x, after, hsplit, hbefore, hx⟩
        cases before with
        | nil =>
          cases hsplit
          rw [hy] at hx
          cases hx
        | cons z before =>
          cases hsplit
          rw [ih.mpr ⟨before, x, after, rfl, (List.forall_mem_cons.mp hbefore).2, hx⟩]
          rfl

/-- **A traversal succeeds with what the elements give, one for each.** -/
theorem mapM_eq_ok_iff {f : α → Except ε β} {xs : List α} {bs : List β} :
    xs.mapM f = .ok bs ↔ xs.map f = bs.map .ok := by
  induction xs generalizing bs with
  | nil => cases bs <;> simp [pure, Except.pure]
  | cons x xs ih =>
    cases hx : f x with
    | error e => cases bs <;> simp [mapM_cons_error hx, hx]
    | ok b =>
      rw [mapM_cons_ok hx, List.map_cons, hx]
      cases bs with
      | nil => cases xs.mapM f <;> simp [Except.map]
      | cons c cs =>
        rw [List.map_cons, List.cons.injEq, Except.ok.injEq, ← ih]
        cases xs.mapM f <;> simp [Except.map]

/-- What succeeds is the same where only the errors differ. -/
theorem map_eq_ok_congr {φ : Type} {f : α → Except ε β} {g : α → Except φ β}
    (h : ∀ x b, f x = .ok b ↔ g x = .ok b) {xs : List α} {bs : List β} :
    xs.map f = bs.map .ok ↔ xs.map g = bs.map .ok := by
  induction xs generalizing bs with
  | nil => cases bs <;> simp
  | cons x xs ih => cases bs <;> simp [h, ih]

end

/-! ## The lines of a text -/

variable {α : Type} {read : String → Except FormatError α} {text : String}

open Text (IsLine isLine_iff isSignificant lines significantLines mem_before_iff
  mem_significantLines_iff significantLines_map_snd)

/-- The line of that number is the first significant one that cannot be read, for this error. -/
structure FirstFault (read : String → Except FormatError α) (text : String) (number : Nat)
    (error : FormatError) : Prop where
  fault : ∃ line, IsLine text.toList number line ∧ isSignificant line = true ∧
    read (.ofList line) = .error error
  earlier : ∀ n line, n < number → IsLine text.toList n line → isSignificant line = true →
    ∃ entry, read (.ofList line) = .ok entry

/-- Every significant line can be read. -/
def Faultless (read : String → Except FormatError α) (text : String) : Prop :=
  ∀ n line, IsLine text.toList n line → isSignificant line = true →
    ∃ entry, read (.ofList line) = .ok entry

/-- The entries are what the significant lines say, one for each and in their order. -/
def Readings (read : String → Except FormatError α) (text : String) (entries : List α) : Prop :=
  ((lines text.toList).filter isSignificant).map (fun line => read (.ofList line)) =
    entries.map .ok

theorem readNumbered_of_error {l : Nat × String} {source : FormatError}
    (h : read l.2 = .error source) : readNumbered read l = .error (.line l.1 source) := by
  rw [readNumbered, h]
  rfl

theorem readNumbered_of_ok {l : Nat × String} {entry : α} (h : read l.2 = .ok entry) :
    readNumbered read l = .ok entry := by
  rw [readNumbered, h]
  rfl

theorem readNumbered_eq_error_iff {l : Nat × String} {e : LoadError} :
    readNumbered read l = .error e ↔ ∃ source, read l.2 = .error source ∧ e = .line l.1 source := by
  cases h : read l.2 with
  | error source => simp [readNumbered_of_error h, eq_comm]
  | ok entry => simp [readNumbered_of_ok h]

theorem readNumbered_eq_ok_iff {l : Nat × String} {entry : α} :
    readNumbered read l = .ok entry ↔ read l.2 = .ok entry := by
  cases h : read l.2 with
  | error source => simp [readNumbered_of_error h]
  | ok entry => simp [readNumbered_of_ok h]

/-- **The error is that of the first faulty line.** -/
theorem readLines_eq_error_iff {e : LoadError} :
    (significantLines text).mapM (readNumbered read) = .error e ↔
      ∃ number source, e = .line number source ∧ FirstFault read text number source := by
  rw [mapM_eq_error_iff]
  constructor
  · rintro ⟨before, ⟨number, entry⟩, after, hsplit, hbefore, hfault⟩
    obtain ⟨source, hsource, rfl⟩ := readNumbered_eq_error_iff.mp hfault
    have hmem : (number, entry) ∈ significantLines text := by simp [hsplit]
    obtain ⟨line, hline, hsig, rfl⟩ := mem_significantLines_iff.mp hmem
    refine ⟨number, source, rfl, ⟨line, hline, hsig, hsource⟩, fun n other hlt hother hsig' => ?_⟩
    have hmem' : (n, String.ofList other) ∈ before :=
      (mem_before_iff hsplit).mpr ⟨mem_significantLines_iff.mpr ⟨other, hother, hsig', rfl⟩, hlt⟩
    obtain ⟨entry, hentry⟩ := hbefore _ hmem'
    exact ⟨entry, readNumbered_eq_ok_iff.mp hentry⟩
  · rintro ⟨number, source, rfl, ⟨line, hline, hsig, hsource⟩, hearlier⟩
    obtain ⟨before, after, hsplit⟩ :=
      List.append_of_mem (mem_significantLines_iff.mpr ⟨line, hline, hsig, rfl⟩)
    refine ⟨before, _, after, hsplit, fun l hl => ?_,
      readNumbered_eq_error_iff.mpr ⟨source, hsource, rfl⟩⟩
    obtain ⟨hmem, hlt⟩ := (mem_before_iff hsplit).mp hl
    obtain ⟨other, hother, hsig', heq⟩ := mem_significantLines_iff.mp hmem
    obtain ⟨entry, hentry⟩ := hearlier l.1 other hlt hother hsig'
    exact ⟨entry, readNumbered_eq_ok_iff.mpr (heq ▸ hentry)⟩

/-- **All readings come, one for each line.** -/
theorem readLines_eq_ok_iff {entries : List α} :
    (significantLines text).mapM (readNumbered read) = .ok entries ↔
      Readings read text entries := by
  have hlines : ((lines text.toList).filter isSignificant).map (fun line => read (.ofList line)) =
      (significantLines text).map fun l => read l.2 := by
    have hmap := congrArg (List.map read) (significantLines_map_snd text)
    rw [List.map_map, List.map_map] at hmap
    exact hmap.symm
  rw [mapM_eq_ok_iff, Readings, hlines]
  exact map_eq_ok_congr fun l entry => readNumbered_eq_ok_iff

/-- What is said of every line and what is said of its reading come to the same list. -/
theorem Readings.map_eq {β : Type} {entries : List α} (h : Readings read text entries)
    {ofLine : List Char → β} {ofEntry : α → β}
    (hread : ∀ line entry, read (.ofList line) = .ok entry → ofLine line = ofEntry entry) :
    ((lines text.toList).filter isSignificant).map ofLine = entries.map ofEntry := by
  unfold Readings at h
  generalize (lines text.toList).filter isSignificant = ls at h ⊢
  induction ls generalizing entries with
  | nil =>
    rw [List.map_nil, eq_comm, List.map_eq_nil_iff] at h
    rw [h]
    rfl
  | cons line ls ih =>
    cases entries with
    | nil => cases h
    | cons entry entries =>
      rw [List.map_cons, List.map_cons, List.cons.injEq] at h
      rw [List.map_cons, List.map_cons, hread line entry h.1, ih h.2]

/-- Every entry was read from a significant line. -/
theorem Readings.exists_line {entries : List α} (h : Readings read text entries) {entry : α}
    (hentry : entry ∈ entries) :
    ∃ line ∈ lines text.toList, isSignificant line = true ∧ read (.ofList line) = .ok entry := by
  unfold Readings at h
  have hread : Except.ok entry ∈ entries.map (Except.ok (ε := FormatError)) :=
    List.mem_map_of_mem hentry
  rw [← h] at hread
  obtain ⟨line, hline, heq⟩ := List.mem_map.mp hread
  obtain ⟨hmem, hsig⟩ := List.mem_filter.mp hline
  exact ⟨line, hmem, hsig, heq⟩

/-- Every significant line was read as an entry. -/
theorem Readings.exists_entry {entries : List α} (h : Readings read text entries)
    {line : List Char} (hline : line ∈ (lines text.toList).filter isSignificant) :
    ∃ entry ∈ entries, read (.ofList line) = .ok entry := by
  have hread : read (.ofList line) ∈ entries.map Except.ok := h ▸ List.mem_map_of_mem hline
  obtain ⟨entry, hentry, heq⟩ := List.mem_map.mp hread
  exact ⟨entry, hentry, heq.symm⟩

/-- The lines are all read exactly when none of them is faulty. -/
theorem faultless_iff : Faultless read text ↔ ∃ entries, Readings read text entries := by
  constructor
  · intro h
    cases hread : (significantLines text).mapM (readNumbered read) with
    | ok entries => exact ⟨entries, readLines_eq_ok_iff.mp hread⟩
    | error e =>
      obtain ⟨number, source, -, ⟨line, hline, hsig, hsource⟩, -⟩ :=
        readLines_eq_error_iff.mp hread
      obtain ⟨entry, hentry⟩ := h number line hline hsig
      rw [hsource] at hentry
      cases hentry
  · rintro ⟨entries, hentries⟩ n line hline hsig
    obtain ⟨i, -, hi⟩ := isLine_iff.mp hline
    have hmem : line ∈ (lines text.toList).filter isSignificant :=
      List.mem_filter.mpr ⟨List.mem_of_getElem? hi, hsig⟩
    obtain ⟨entry, -, hentry⟩ := hentries.exists_entry hmem
    exact ⟨entry, hentry⟩

namespace Catalog

/-- The errors of the two texts, put together. -/
theorem exists_fault_iff {actors facts : String} {e : LoadError} :
    (∃ number source, e = .line number source ∧
      (FirstFault Actor.ofLine actors number source ∨
        Faultless Actor.ofLine actors ∧ FirstFault Fact.ofLine facts number source)) ↔
    (significantLines actors).mapM (readNumbered Actor.ofLine) = .error e ∨
      (∃ as, (significantLines actors).mapM (readNumbered Actor.ofLine) = .ok as) ∧
        (significantLines facts).mapM (readNumbered Fact.ofLine) = .error e := by
  simp only [readLines_eq_error_iff, readLines_eq_ok_iff, ← faultless_iff]
  constructor
  · rintro ⟨number, source, he, hactors | ⟨hactors, hfacts⟩⟩
    · exact Or.inl ⟨number, source, he, hactors⟩
    · exact Or.inr ⟨hactors, number, source, he, hfacts⟩
  · rintro (⟨number, source, he, hactors⟩ | ⟨hactors, number, source, he, hfacts⟩)
    · exact ⟨number, source, he, Or.inl hactors⟩
    · exact ⟨number, source, he, Or.inr ⟨hactors, hfacts⟩⟩

/-- Two texts load as a catalog when it has the readings of all their lines. -/
theorem load_eq_ok_iff {actors facts : String} {c : Catalog} :
    (load actors facts).value = .ok c ↔
      Readings Actor.ofLine actors c.actors ∧ Readings Fact.ofLine facts c.facts := by
  rw [value_load, ← readLines_eq_ok_iff, ← readLines_eq_ok_iff]
  cases (significantLines actors).mapM (readNumbered Actor.ofLine) with
  | error e => simp [Except.bind]
  | ok as =>
    cases (significantLines facts).mapM (readNumbered Fact.ofLine) with
    | error e => simp [Except.bind]
    | ok fs =>
      obtain ⟨as', fs'⟩ := c
      simp [Except.bind]

/-- Loading fails where one of the traversals does, the one of the facts only behind the other. -/
theorem load_eq_error_iff {actors facts : String} {e : LoadError} :
    (load actors facts).value = .error e ↔
      (significantLines actors).mapM (readNumbered Actor.ofLine) = .error e ∨
      (∃ as, (significantLines actors).mapM (readNumbered Actor.ofLine) = .ok as) ∧
        (significantLines facts).mapM (readNumbered Fact.ofLine) = .error e := by
  rw [value_load]
  cases (significantLines actors).mapM (readNumbered Actor.ofLine) with
  | error e => simp [Except.bind]
  | ok as =>
    cases (significantLines facts).mapM (readNumbered Fact.ofLine) with
    | error e => simp [Except.bind]
    | ok fs => simp [Except.bind]

/-- **Two texts load as the catalog of all their significant lines, or fail with the first faulty
one**, that of the actors before that of the facts. -/
theorem load_outcome (actors facts : String) :
    (∀ c, (load actors facts).value = .ok c ↔
      Readings Actor.ofLine actors c.actors ∧ Readings Fact.ofLine facts c.facts) ∧
    ∀ e, (load actors facts).value = .error e ↔ ∃ number source, e = .line number source ∧
      (FirstFault Actor.ofLine actors number source ∨
        Faultless Actor.ofLine actors ∧ FirstFault Fact.ofLine facts number source) :=
  ⟨fun _ => load_eq_ok_iff, fun _ => load_eq_error_iff.trans exists_fault_iff.symm⟩

/-- A comment and a blank line count, though nothing is read from them. -/
example : (load "Pooh\r\n\t# none\nKaa |,a" "\r\n #\n%s. | (a,)").value =
    .error (.line 3 (.badRule ⟨.emptyClause, 4⟩)) := by
  with_unfolding_all rfl

end Catalog

end TagLogic
