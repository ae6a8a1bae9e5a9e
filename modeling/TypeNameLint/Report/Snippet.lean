import TypeNameLint.Report.Text
import TypeNameLint.Report.Wrap
import TypeNameLint.Text.Bytes

/-!
# Report.Snippet — violations with the source around them

A report shows the message, the line of the violation between its neighbours, a mark under the span
with the name of the rule, and the help. A span that goes on past its first line is marked up to the
end of that line. This file defines:

- `Snippet.columnAfter`, `Snippet.shownLine`: columns and tabs;
- `Snippet.underline`: the mark under a span;
- `Diagnostic.frame`: the lines of the source;
- `Diagnostic.render`: the report.
-/

namespace TypeNameLint
namespace Snippet

/-! ## Columns -/

def tabWidth : Nat := 4

/-- The number of columns that a character takes at a column. -/
def columnsAt (column : Nat) (c : Char) : Nat :=
  if c = '\t' then tabWidth - column % tabWidth else Text.columns c

/-- The column after a text. -/
def columnAfter (cs : List Char) : Nat :=
  cs.foldl (fun column c => column + columnsAt column c) 0

def shownFrom (column : Nat) : List Char → List Char
  | [] => []
  | c :: cs =>
    let next := column + columnsAt column c
    let shown := if c = '\t' then List.replicate (columnsAt column c) ' ' else [c]
    shown ++ shownFrom next cs

def shownLine (line : List Char) : String :=
  String.ofList (shownFrom 0 line)

/-- The text of a line before a byte offset, or the whole line if it ends earlier. -/
def before (line : List Char) (offset : Nat) : List Char :=
  match Text.splitAtByte? offset line with
  | some (piece, _) => piece
  | none => line

/-! ## Marks -/

/-- The columns of a mark: the first one, the one of the branch, and the first one after it. -/
structure Mark where
  start : Nat
  branch : Nat
  stop : Nat
  deriving Repr

/-- The mark under a span of a line. -/
def markOf (line : List Char) (offset length : Nat) : Mark :=
  let start := columnAfter (before line offset)
  let stop := max (columnAfter (before line (offset + length))) (start + 1)
  ⟨start, (start + stop) / 2, stop⟩

def underline (mark : Mark) : String :=
  String.ofList
    (List.replicate mark.start ' ' ++ List.replicate (mark.branch - mark.start) '─' ++ '┬' ::
      List.replicate (mark.stop - mark.branch - 1) '─')

def labelLine (mark : Mark) (label : String) : String :=
  String.ofList (List.replicate mark.branch ' ') ++ "╰── " ++ label

/-! ## Frames -/

def numbered (width number : Nat) : String :=
  let digits := Nat.toDigits 10 number
  String.ofList (' ' :: List.replicate (width - digits.length) ' ' ++ digits) ++ " │ "

/-- The margin of a line without a number. -/
def unnumbered (width : Nat) : String :=
  String.ofList (List.replicate (width + 2) ' ') ++ "· "

/-- A line with its number, and the mark under it if it is the marked one. -/
def lineWithMark (width marked : Nat) (mark : Mark) (label : String)
    (entry : List Char × Nat) : List String :=
  let shown := numbered width (entry.2 + 1) ++ shownLine entry.1
  if entry.2 = marked then
    [shown, unnumbered width ++ underline mark, unnumbered width ++ labelLine mark label]
  else [shown]

end Snippet

namespace Diagnostic

/-- The marked line between its neighbours, under the name and the place of the file. -/
def frame (d : Diagnostic) (name : String) (content : List Char) : List String :=
  let position := Text.positionAt content d.offset
  let lines := (Text.lines content).zipIdx
  let shown := lines.filter fun entry => position.row ≤ entry.2 + 1 && entry.2 ≤ position.row + 1
  let last := (shown.getLast?.map fun entry => entry.2 + 1).getD 0
  let width := (Nat.toDigits 10 last).length
  let line := ((Text.lines content)[position.row]?).getD []
  let mark := Snippet.markOf line position.column d.length
  let indent := String.ofList (List.replicate (width + 2) ' ')
  [indent ++ s!"╭─[{name}:{position.row + 1}:{position.column + 1}]"] ++
    shown.flatMap (Snippet.lineWithMark width position.row mark d.label) ++ [indent ++ "╰────"]

def reportWidth : Nat := 78

/-- The report, with the source if that is known, and with a line end after each line. -/
def render (d : Diagnostic) (name : String) (content : Option String) : String :=
  let title := wrap reportWidth "  × " "  │ " d.message
  let frame := (content.map fun s => d.frame name s.toList).getD []
  let help := (d.help.map fun s => wrap reportWidth "  help: " "        " s).toList
  String.join ((title :: frame ++ help).map fun line => line ++ "\n")

end Diagnostic
end TypeNameLint
