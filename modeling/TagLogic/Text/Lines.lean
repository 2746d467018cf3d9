import TagLogic.Text.Blank
import TagLogic.Text.Pieces

/-!
# Lines

A line feed ends a line and takes one carriage return right before it along. What
stands after the last line feed is a line too, kept as it is, unless nothing stands
there. Lines are numbered from 1, all of them; a line is *significant* when something
stands on it that is no comment.

- `lines_append` — texts of whole lines concatenate as lists of lines do;
- `lines_feed`, `lines_last` — the first line, and the one that no line feed ends.

The operation `read_lines` goes through the significant lines of its text and keeps
their numbers. It looks for the `#` of a comment behind the white space in front of the
line, so an indented comment is one too.
-/

namespace TagLogic.Text

/-- The text without one carriage return at its end. -/
def dropReturn (s : List Char) : List Char :=
  if s.getLast? = some '\r' then s.dropLast else s

/-- The lines among the pieces between line feeds: only the last piece was not ended by one. -/
def linesOfPieces (ps : List (List Char)) : List (List Char) :=
  ps.dropLast.map dropReturn ++ ps.getLast?.toList.filter (· ≠ [])

/-- The lines of a text. -/
def lines (s : List Char) : List (List Char) := linesOfPieces (s.splitOn '\n')

@[simp] theorem lines_nil : lines [] = [] := rfl

/-- **Texts of whole lines concatenate as lists of lines do.** -/
theorem lines_append (s t : List Char) :
    lines (s ++ '\n' :: t) = lines (s ++ ['\n']) ++ lines t := by
  have hne := List.splitOn_ne_nil '\n' t
  have hlast : (t.splitOn '\n').getLast? = some ((t.splitOn '\n').getLast hne) :=
    List.getLast?_eq_some_getLast hne
  simp only [lines, List.splitOn_append_cons_self, List.splitOn_nil]
  simp [linesOfPieces, List.dropLast_append_of_ne_nil hne, hlast]

/-- The first line feed ends the first line. -/
theorem lines_feed {body : List Char} (h : '\n' ∉ body) (rest : List Char) :
    lines (body ++ '\n' :: rest) = dropReturn body :: lines rest := by
  rw [lines_append]
  simp [lines, linesOfPieces, List.splitOn_append_cons_self, List.splitOn_eq_singleton h]

/-- What no line feed ends is a line as it is. -/
theorem lines_last {body : List Char} (h : '\n' ∉ body) (hne : body ≠ []) :
    lines body = [body] := by
  simp [lines, linesOfPieces, List.splitOn_eq_singleton h, hne]

/-! ## Significant lines -/

/-- Something stands on the line, and it does not begin with `#`. -/
def isSignificant (line : List Char) : Bool :=
  match line.dropWhile isWhite with
  | [] => false
  | c :: _ => c != '#'

/-- The significant lines of a text, each with its number among all lines. -/
def significantLines (text : String) : List (Nat × String) :=
  (((lines text.toList).zipIdx 1).filter fun l => isSignificant l.1).map
    fun l => (l.2, String.ofList l.1)

end TagLogic.Text
