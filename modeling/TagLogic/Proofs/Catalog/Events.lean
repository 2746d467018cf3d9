import TagLogic.Proofs.Catalog.Selection
import Mathlib.Data.List.Basic

/-!
# What the log of a load tells

Loading stops in the middle when a line is faulty, and events come from the reading of the
rules of facts while that goes on. What is logged can still be told from the texts alone:
nothing as long as the actors are not all read; then, line by line up to the first faulty
fact (`upToFailure`), the outcome of the rule text behind the first bar, if there is one
(`Fact.event?`); and at the very end the size of the catalog, if there is one.

> `load_events`: these are the events of a load, and those of files are one more in front.

So a rule is rejected at most once, it is the last thing that happens, and no catalog comes
of it. A line whose pattern is faulty still logs its rule, for the rule is read first.

The operations are `from_strs` and, from files, `from_files`.
-/

namespace TagLogic

open Text (isSignificant lines significantLines)

/-! ## Up to the first failure -/

section

variable {α β ε : Type}

/-- Those in front that do not fail and the first that does. -/
def upToFailure (f : β → Except ε α) (xs : List β) : List β :=
  xs.takeWhile (fun x => (f x).isOk) ++ (xs.dropWhile fun x => (f x).isOk).take 1

theorem upToFailure_cons_ok (f : β → Except ε α) {x : β} {a : α} (h : f x = .ok a)
    (xs : List β) : upToFailure f (x :: xs) = x :: upToFailure f xs := by
  unfold upToFailure
  simp [h, Except.isOk, Except.toBool]

theorem upToFailure_cons_error (f : β → Except ε α) {x : β} {e : ε} (h : f x = .error e)
    (xs : List β) : upToFailure f (x :: xs) = [x] := by
  unfold upToFailure
  simp [h, Except.isOk, Except.toBool]

theorem upToFailure_map {γ : Type} (f : γ → Except ε α) (g : β → γ) (xs : List β) :
    upToFailure f (xs.map g) = (upToFailure (fun x => f (g x)) xs).map g := by
  unfold upToFailure
  rw [List.takeWhile_map, List.dropWhile_map, List.map_append, List.map_take]
  rfl

/-- Either nothing fails and nothing is left out, or the first that fails comes last. -/
theorem upToFailure_cases (f : β → Except ε α) (xs : List β) :
    ((∀ x ∈ xs, ∃ a, f x = .ok a) ∧ upToFailure f xs = xs) ∨
    ∃ before x e, x ∈ xs ∧ (∀ y ∈ before, ∃ a, f y = .ok a) ∧ f x = .error e ∧
      upToFailure f xs = before ++ [x] := by
  induction xs with
  | nil => exact Or.inl ⟨List.forall_mem_nil _, rfl⟩
  | cons x xs ih =>
    cases hx : f x with
    | error e =>
      exact Or.inr ⟨[], x, e, List.mem_cons_self, List.forall_mem_nil _, hx,
        upToFailure_cons_error f hx xs⟩
    | ok a =>
      rw [upToFailure_cons_ok f hx]
      rcases ih with ⟨hall, heq⟩ | ⟨before, y, e, hy, hbefore, he, heq⟩
      · rw [heq]
        exact Or.inl ⟨List.forall_mem_cons.mpr ⟨⟨a, hx⟩, hall⟩, rfl⟩
      · rw [heq]
        exact Or.inr ⟨x :: before, y, e, List.mem_cons_of_mem x hy,
          List.forall_mem_cons.mpr ⟨⟨a, hx⟩, hbefore⟩, he, rfl⟩

/-- **Reading lines logs what reading each of them logs, up to the first that fails.** -/
theorem events_readEach (read : String → Logged (Except FormatError α))
    (ls : List (Nat × String)) :
    (readEach read ls).events =
      (upToFailure (fun line => (read line).value) (ls.map Prod.snd)).flatMap
        fun line => (read line).events := by
  induction ls with
  | nil => rfl
  | cons l rest ih =>
    obtain ⟨number, line⟩ := l
    unfold readEach
    show _ = (upToFailure (fun line => (read line).value) (line :: rest.map Prod.snd)).flatMap _
    have hvalue : ((read line).map (·.mapError (LoadError.line number))).value =
        (read line).value.mapError (.line number) := Logged.value_map _ _
    cases hread : (read line).value with
    | error e =>
      rw [hread] at hvalue
      rw [Logged.andThen_of_error hvalue,
        upToFailure_cons_error (fun line => (read line).value) hread, List.flatMap_singleton]
      rfl
    | ok entry =>
      rw [hread] at hvalue
      rw [Logged.andThen_of_ok hvalue,
        upToFailure_cons_ok (fun line => (read line).value) hread, List.flatMap_cons, ← ih]
      rfl

end

/-! ## The events of a fact line -/

namespace Fact

/-- The event of reading the rule behind the first bar of the line, if there is a bar: it carries
the text as it stands there and what comes of reading it. -/
def event? (line : List Char) : Option Event :=
  match line.dropWhile (· ≠ '|') with
  | [] => none
  | _ :: text => some (.ofParse (.ofList text) (Rule.parse (.ofList text)))

theorem events_readLine (line : List Char) :
    (readLine (.ofList line)).events = (event? line).toList := by
  unfold event? readLine
  rw [splitLine_eq]
  cases line.dropWhile (fun c => decide (c ≠ '|')) <;> rfl

/-- A line that can be read has no rule that is rejected. -/
theorem event?_ne_rejected {line : List Char} {f : Fact} (h : ofLine (.ofList line) = .ok f)
    (text : String) (error : SyntaxError) : event? line ≠ some (.rejected text error) := by
  have hrule := (ofLine_eq_ok_iff.mp h).2
  unfold rulePart at hrule
  unfold event?
  split
  next => exact (Option.some_ne_none _).symm
  next bar rest heq =>
    rw [heq] at hrule
    dsimp only at hrule
    rw [hrule]
    intro hrejected
    exact Event.noConfusion (Option.some.inj hrejected)

/-- And so have lines that can all be read. -/
theorem rejected_not_mem_of_ok {ls : List (List Char)}
    (h : ∀ line ∈ ls, ∃ f, ofLine (.ofList line) = .ok f) (text : String) (error : SyntaxError) :
    .rejected text error ∉ ls.filterMap event? := by
  intro hmem
  obtain ⟨line, hline, hevent⟩ := List.mem_filterMap.mp hmem
  obtain ⟨f, hf⟩ := h line hline
  exact event?_ne_rejected hf text error hevent

end Fact

namespace Catalog

/-! ## The events of a load -/

/-- The significant lines of a text up to the first that tells no fact. -/
def linesTried (facts : String) : List (List Char) :=
  upToFailure (fun line => Fact.ofLine (.ofList line))
    ((lines facts.toList).filter isSignificant)

/-- What is logged in the end: how much was loaded, if anything was. -/
def closing : Except LoadError Catalog → List Event
  | .ok c => [.loaded c.actors.length c.facts.length]
  | .error _ => []

theorem events_readFacts (facts : String) :
    (readEach Fact.readLine (significantLines facts)).events =
      (linesTried facts).filterMap Fact.event? := by
  rw [events_readEach, Text.significantLines_map_snd, upToFailure_map, List.flatMap_map]
  simp only [Fact.events_readLine, Fact.value_readLine]
  exact (List.filterMap_eq_flatMap_toList Fact.event? (linesTried facts)).symm

theorem value_readActors_eq_ok_iff {actors : String} {as : List Actor} :
    (readEach (fun line => .silent (Actor.ofLine line)) (significantLines actors)).value = .ok as ↔
      Readings Actor.ofLine actors as := by
  rw [value_readEach]
  exact readLines_eq_ok_iff

theorem events_readActors (actors : String) :
    (readEach (fun line => .silent (Actor.ofLine line)) (significantLines actors)).events = [] := by
  rw [events_readEach]
  exact List.flatMap_eq_nil_iff.mpr fun _ _ => rfl

/-- Where an actor cannot be read nothing is logged. -/
theorem events_load_of_not_faultless {actors : String} (h : ¬ Faultless Actor.ofLine actors)
    (facts : String) : (load actors facts).events = [] := by
  unfold load
  cases hread : (readEach (fun line => .silent (Actor.ofLine line))
      (significantLines actors)).value with
  | ok as => exact absurd (faultless_iff.mpr ⟨as, value_readActors_eq_ok_iff.mp hread⟩) h
  | error e =>
    rw [Logged.andThen_of_error hread]
    exact events_readActors actors

/-- Where all actors are read the fact lines are logged up to the first faulty one. -/
theorem events_load_of_faultless {actors : String} (h : Faultless Actor.ofLine actors)
    (facts : String) : (load actors facts).events =
      (linesTried facts).filterMap Fact.event? ++ closing (load actors facts).value := by
  obtain ⟨as, has⟩ := faultless_iff.mp h
  have hread := value_readActors_eq_ok_iff.mpr has
  unfold load
  rw [Logged.andThen_of_ok hread, events_readActors, List.nil_append]
  cases hfacts : (readEach Fact.readLine (significantLines facts)).value with
  | error e =>
    rw [Logged.andThen_of_error hfacts, events_readFacts]
    exact (List.append_nil _).symm
  | ok fs =>
    rw [Logged.andThen_of_ok hfacts, events_readFacts]
    rfl

theorem rejected_not_mem_closing (text : String) (error : SyntaxError)
    (outcome : Except LoadError Catalog) : .rejected text error ∉ closing outcome := by
  unfold closing
  split <;> simp

/-- **A rejected rule is the last event and the only one of its kind**, and nothing is loaded. -/
theorem rejected_last {actors facts text : String} {error : SyntaxError}
    (h : .rejected text error ∈ (load actors facts).events) :
    ∃ front, (load actors facts).events = front ++ [.rejected text error] ∧
      (∀ text' error', .rejected text' error' ∉ front) ∧
      ∃ e, (load actors facts).value = .error e := by
  have hactors : Faultless Actor.ofLine actors := by
    by_contra hnot
    rw [events_load_of_not_faultless hnot] at h
    exact List.not_mem_nil h
  have hevents := events_load_of_faultless hactors facts
  rw [hevents] at h
  have htried := (List.mem_append.mp h).resolve_right (rejected_not_mem_closing text error _)
  rcases upToFailure_cases (fun line => Fact.ofLine (.ofList line))
      ((lines facts.toList).filter isSignificant) with
    ⟨hall, heq⟩ | ⟨before, line, e, hline, hbefore, hfault, heq⟩
  · -- Without a faulty line there is no event of this kind.
    unfold linesTried at htried
    rw [heq] at htried
    exact absurd htried (Fact.rejected_not_mem_of_ok hall text error)
  · have hfails : ∃ e, (load actors facts).value = .error e := by
      cases hvalue : (load actors facts).value with
      | error e => exact ⟨e, rfl⟩
      | ok c =>
        obtain ⟨f, -, hf⟩ := (load_eq_ok_iff.mp hvalue).2.exists_entry hline
        rw [hf] at hfault
        cases hfault
    obtain ⟨e', he'⟩ := hfails
    have hfront := Fact.rejected_not_mem_of_ok hbefore
    unfold linesTried at htried hevents
    rw [heq, List.filterMap_append] at htried hevents
    have hlast := (List.mem_append.mp htried).resolve_left (hfront text error)
    obtain ⟨other, hother, hevent⟩ := List.mem_filterMap.mp hlast
    rw [List.mem_singleton.mp hother] at hevent
    refine ⟨before.filterMap Fact.event?, ?_, hfront, e', he'⟩
    rw [hevents, he', List.filterMap_cons_some hevent]
    exact List.append_nil _

end Catalog

/-! ## Files -/

namespace File

/-- The file that holds the text. -/
def ofText (text : String) : File := .holding text.toUTF8

/-- Why a file does not hold a text. -/
inductive HasFault : File → FileFault → Prop
  | notUtf8 {bytes : ByteArray} : (∀ text : String, text.toUTF8 ≠ bytes) →
      HasFault (.holding bytes) .notUtf8
  | failing {fault : FileFault} : HasFault (.failing fault) fault

/-- Every file holds a text or tells why it does not. -/
theorem ofText_or_hasFault (file : File) :
    (∃ text, file = ofText text) ∨ ∃ fault, file.HasFault fault := by
  cases file with
  | failing fault => exact Or.inr ⟨fault, .failing⟩
  | holding bytes =>
    by_cases hvalid : bytes.IsValidUTF8
    · exact Or.inl ⟨.fromUTF8 bytes hvalid, rfl⟩
    · refine Or.inr ⟨.notUtf8, .notUtf8 ?_⟩
      rintro text rfl
      exact hvalid text.isValidUTF8

theorem text_ofText (text : String) : (ofText text).text = .ok text := by
  have hbytes : String.fromUTF8? text.toUTF8 = some text := by
    unfold String.fromUTF8?
    exact dif_pos text.isValidUTF8
  unfold ofText File.text
  dsimp only
  rw [hbytes]

theorem HasFault.text_eq {file : File} {fault : FileFault} (h : file.HasFault fault) :
    file.text = .error fault := by
  cases h with
  | failing => rfl
  | @notUtf8 bytes hnot =>
    have hbytes : String.fromUTF8? bytes = none := by
      unfold String.fromUTF8?
      exact dif_neg fun hvalid => hnot (.fromUTF8 bytes hvalid) rfl
    unfold File.text
    dsimp only
    rw [hbytes]

end File

namespace Catalog

/-- **The events of a load are those its texts foretell.** Where the actors are not all read there
are none; otherwise the rules of the facts are logged, one for each line with a bar, up to the first
faulty line, and the size of the catalog if there is one. A rejected rule ends the log. From files
there is one event more in front, and nothing behind it where one of them holds no text; every file
either holds one or has a fault, which is the error then. -/
theorem load_events :
    (∀ actors facts : String,
      (¬ Faultless Actor.ofLine actors → (load actors facts).events = []) ∧
      (Faultless Actor.ofLine actors → (load actors facts).events =
        (linesTried facts).filterMap Fact.event? ++ closing (load actors facts).value) ∧
      ∀ text error, .rejected text error ∈ (load actors facts).events →
        ∃ front, (load actors facts).events = front ++ [.rejected text error] ∧
          (∀ text' error', .rejected text' error' ∉ front) ∧
          ∃ e, (load actors facts).value = .error e) ∧
    (∀ file : File, (∃ text, file = .ofText text) ∨ ∃ fault, file.HasFault fault) ∧
    ∀ names : String × String,
      (∀ actors facts fault, actors.HasFault fault →
        loadFiles names actors facts = ⟨.error (.file fault), [.reading names.1 names.2]⟩) ∧
      (∀ actors facts fault, facts.HasFault fault →
        loadFiles names (.ofText actors) facts =
          ⟨.error (.file fault), [.reading names.1 names.2]⟩) ∧
      ∀ actors facts, loadFiles names (.ofText actors) (.ofText facts) =
        ⟨(load actors facts).value, .reading names.1 names.2 :: (load actors facts).events⟩ := by
  refine ⟨fun actors facts => ⟨fun h => events_load_of_not_faultless h facts,
    fun h => events_load_of_faultless h facts, fun text error => rejected_last⟩,
    File.ofText_or_hasFault, fun names => ?_⟩
  refine ⟨fun actors facts fault h => ?_, fun actors facts fault h => ?_, fun actors facts => ?_⟩
  · unfold loadFiles
    rw [h.text_eq]
    rfl
  · unfold loadFiles
    rw [h.text_eq, File.text_ofText]
    rfl
  · unfold loadFiles
    rw [File.text_ofText, File.text_ofText]
    rfl

/-- A faulty pattern still logs its rule, and nothing behind it is read; a comment and a line
without a bar log nothing. A rule that is rejected ends the log, and so does a file that is not
there. -/
theorem load_events_stopped :
    (load "Kaa" "%s a. | x\n#|\nno bar\n[%s | !y\n%s | z").events =
        [.parsed " x" (.tagged "x"), .parsed " !y" (.not (.tagged "y"))] ∧
      (∃ front, (load "Kaa" "%s| x\n[%s | x,y|\n%s").events =
        front ++ [.rejected " x,y|" ⟨.trailing ',', 2⟩]) ∧
      (load "Kaa\n|x" "%s | x").events = [] ∧
      loadFiles ("a", "f") (.ofText "Kaa\n|x") .absent =
        ⟨.error (.file .absent), [.reading "a" "f"]⟩ := by
  have hkaa : Faultless Actor.ofLine "Kaa" :=
    faultless_iff.mpr ⟨[.ofName "Kaa"], by with_unfolding_all rfl⟩
  have hnobody : ¬ Faultless Actor.ofLine "Kaa\n|x" := by
    intro h
    obtain ⟨as, has⟩ := faultless_iff.mp h
    have hline : ['|', 'x'] ∈ (lines "Kaa\n|x".toList).filter isSignificant := by
      with_unfolding_all decide
    obtain ⟨a, -, ha⟩ := has.exists_entry hline
    have hnoName : Actor.ofLine (.ofList ['|', 'x']) = .error .emptyName := rfl
    rw [hnoName] at ha
    cases ha
  have hrejected : .rejected " x,y|" ⟨.trailing ',', 2⟩ ∈
      (load "Kaa" "%s| x\n[%s | x,y|\n%s").events := by
    have hevents : (load "Kaa" "%s| x\n[%s | x,y|\n%s").events =
        [.parsed " x" (.tagged "x"), .rejected " x,y|" ⟨.trailing ',', 2⟩] := by
      with_unfolding_all rfl
    rw [hevents]
    exact List.mem_cons_of_mem _ List.mem_cons_self
  refine ⟨((load_events.1 _ _).2.1 hkaa).trans ?_, ?_, (load_events.1 _ _).1 hnobody,
    (load_events.2.2 _).2.1 _ _ _ .failing⟩
  · with_unfolding_all rfl
  · obtain ⟨front, hfront, -⟩ := (load_events.1 _ _).2.2 _ _ hrejected
    exact ⟨front, hfront⟩

end Catalog

end TagLogic
