/-!
# Text.Lines — splitting a text at a character and into lines

- `splitOn`: the pieces between the occurrences of a separator, never the empty list;
- `lines`: the lines of a text. A line ends at a line feed, and a carriage return just before that
  line feed belongs to the line end. A text that ends with a line end has no empty last line.
-/

namespace TypeNameLint
namespace Text

/-! ## Pieces -/

/-- The pieces of a text between the occurrences of `sep`, in order. -/
def splitOn (sep : Char) : List Char → List (List Char)
  | [] => [[]]
  | c :: cs =>
    if c = sep then [] :: splitOn sep cs
    else
      match splitOn sep cs with
      | [] => [[c]]
      | piece :: pieces => (c :: piece) :: pieces

/-- There is always at least one piece. -/
theorem splitOn_ne_nil (sep : Char) (cs : List Char) : splitOn sep cs ≠ [] := by
  cases cs with
  | nil => simp [splitOn]
  | cons c cs =>
    simp only [splitOn]
    split
    · simp
    · split <;> simp

/-- The text whose pieces are given, with `sep` between neighbours. -/
def joinWith (sep : Char) : List (List Char) → List Char
  | [] => []
  | [piece] => piece
  | piece :: pieces => piece ++ sep :: joinWith sep pieces

/-! ## Lines -/

/-- A line end consists of a line feed and of a carriage return just before it, if there is one. -/
def dropReturn (line : List Char) : List Char :=
  if line.getLast? = some '\r' then line.dropLast else line

/-- The lines made of `pieces`, all of which but the last were ended by a line feed. -/
def linesOfPieces : List (List Char) → List (List Char)
  | [] => []
  | [last] => if last.isEmpty then [] else [last]
  | piece :: pieces => dropReturn piece :: linesOfPieces pieces

/-- The lines of a text without their line ends. -/
def lines (cs : List Char) : List (List Char) :=
  linesOfPieces (splitOn '\n' cs)

end Text
end TypeNameLint
