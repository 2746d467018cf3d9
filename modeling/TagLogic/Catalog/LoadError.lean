import TagLogic.FormatError

/-!
# Why a catalog cannot be loaded

Either a line is faulty or a file cannot be had as text. A faulty line is told by its
number; what is wrong with it comes first among the causes.

The operation `from_strs` fails with a line, `from_files` with a line or a file. What
the system says of a file is passed on as it is, so any kind and any words may stand
there; the two faults that are named are the ones that come up when a file is missing or
holds no text.
-/

namespace TagLogic

/-- Why a file cannot be had as text: any error that the system may report on the way. -/
structure FileFault where
  kind : String
  /-- What the system says. -/
  message : String
  deriving DecidableEq, Repr

namespace FileFault

/-- There is no such file. -/
def absent : FileFault := ⟨"NotFound", "No such file or directory (os error 2)"⟩

/-- The file could be read, but it holds no text. -/
def notUtf8 : FileFault := ⟨"InvalidData", "stream did not contain valid UTF-8"⟩

end FileFault

/-- Why a catalog cannot be loaded. -/
inductive LoadError where
  /-- The line of that number, counted from 1, is faulty. -/
  | line (number : Nat) (error : FormatError)
  | file (fault : FileFault)
  deriving DecidableEq, Repr

namespace LoadError

def message : LoadError → String
  | .line number error => "line " ++ Nat.repr number ++ ": " ++ error.message
  | .file fault => fault.message

/-- The wordings of what caused the error, the nearest cause first. -/
def causes : LoadError → List String
  | .line _ error => error.message :: error.causes
  | .file _ => []

end LoadError

end TagLogic
