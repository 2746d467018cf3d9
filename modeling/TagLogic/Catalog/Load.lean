import TagLogic.Catalog.Basic
import TagLogic.Catalog.LoadError
import TagLogic.Text.Lines

/-!
# Loading a catalog

A catalog is read from two texts, one line for each actor and one for each fact; blank
lines and comments do not count. The actors are read before the facts, and the first
faulty line ends the reading. The texts may come from files, which are had whole before
any line is read.

- `value_readEach` — the events aside, a list of lines is read as `mapM` reads it;
- `value_load` — so a catalog is the actors and the facts, or the first error.

Of the operations, `read_lines` is `readEach` over `Text.significantLines`, `from_strs`
is `load` and `from_files` is `loadFiles`. On purpose there is no file system: what is
found under each of the two names is an argument, a file or any fault that keeps it from
being read.
-/

namespace TagLogic

/-! ## Lines -/

variable {α : Type}

/-- Reads numbered lines up to the first faulty one. -/
def readEach (read : String → Logged (Except FormatError α)) :
    List (Nat × String) → Logged (Except LoadError (List α))
  | [] => .silent (.ok [])
  | (number, line) :: rest =>
    ((read line).map (·.mapError (.line number))).andThen fun entry =>
      (readEach read rest).map (·.map (entry :: ·))

/-- Reads one numbered line. -/
def readNumbered (read : String → Except FormatError α) (l : Nat × String) :
    Except LoadError α := (read l.2).mapError (.line l.1)

/-- **The events aside, the lines are read one after the other.** -/
theorem value_readEach (read : String → Logged (Except FormatError α))
    (lines : List (Nat × String)) :
    (readEach read lines).value = lines.mapM (readNumbered fun line => (read line).value) := by
  induction lines with
  | nil => rfl
  | cons l rest ih =>
    obtain ⟨number, line⟩ := l
    rw [readEach, Logged.value_andThen, List.mapM_cons]
    simp only [Logged.value_map, ih]
    rfl

namespace Catalog

/-- Reads a catalog from its two texts. -/
def load (actors facts : String) : Logged (Except LoadError Catalog) :=
  (readEach (fun line => .silent (Actor.ofLine line)) (Text.significantLines actors)).andThen
    fun as =>
      (readEach Fact.readLine (Text.significantLines facts)).andThen fun fs =>
        ⟨.ok ⟨as, fs⟩, [.loaded as.length fs.length]⟩

/-- **A catalog is its actors and its facts, or the first error.** -/
theorem value_load (actors facts : String) :
    (load actors facts).value =
      ((Text.significantLines actors).mapM (readNumbered Actor.ofLine)).bind fun as =>
        ((Text.significantLines facts).mapM (readNumbered Fact.ofLine)).bind fun fs =>
          .ok ⟨as, fs⟩ := by
  simp [load, Logged.value_andThen, value_readEach]

end Catalog

/-! ## Files -/

/-- What is found where a file is looked for. -/
inductive File where
  /-- A file with these bytes. -/
  | holding (bytes : ByteArray)
  /-- No bytes to be had, and why. -/
  | failing (fault : FileFault)

namespace File

/-- There is no file. -/
def absent : File := .failing .absent

/-- The text of a file. -/
def text : File → Except FileFault String
  | .holding bytes =>
    match String.fromUTF8? bytes with
    | some text => .ok text
    | none => .error .notUtf8
  | .failing fault => .error fault

end File

namespace Catalog

/-- Reads a catalog from two files with these names; both are had before any line is read. -/
def loadFiles (names : String × String) (actors facts : File) :
    Logged (Except LoadError Catalog) :=
  Logged.andThen ⟨.ok (), [.reading names.1 names.2]⟩ fun () =>
    -- Where neither file can be had, the fault of the first is told.
    match actors.text, facts.text with
    | .error fault, _ => .silent (.error (.file fault))
    | .ok _, .error fault => .silent (.error (.file fault))
    | .ok actors, .ok facts => load actors facts

end Catalog

end TagLogic
