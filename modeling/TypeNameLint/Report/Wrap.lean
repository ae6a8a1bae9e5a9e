import TypeNameLint.Text.Lines
import TypeNameLint.Text.Width

/-!
# Report.Wrap — breaking paragraphs into lines

A paragraph is broken at blanks, and after hyphens inside words, so that the lines come out as even
as possible: of all ways to break it the cheapest is taken. This file defines:

- `Word`, `words`: the pieces between which a line can end;
- `lineCost`: the price of a line;
- `wrapLine`, `wrap`: the lines of one paragraph and of several.
-/

namespace TypeNameLint
namespace Wrap

/-! ## Words -/

/-- A piece of text that stays together, and the number of blanks that follow it. -/
structure Word where
  text : List Char
  blanks : Nat
  deriving DecidableEq, Repr

/-- The words of a line. The word being read is kept in reverse. -/
def wordsFrom (word : List Char) (blanks : Nat) : List Char → List Word
  | [] => if word.isEmpty && blanks = 0 then [] else [⟨word.reverse, blanks⟩]
  | c :: rest =>
    if c = ' ' then wordsFrom word (blanks + 1) rest
    else if 0 < blanks then ⟨word.reverse, blanks⟩ :: wordsFrom [c] 0 rest
    else
      match word with
      | '-' :: before :: _ =>
        if before.isAlphanum && c.isAlphanum then ⟨word.reverse, 0⟩ :: wordsFrom [c] 0 rest
        else wordsFrom (c :: word) 0 rest
      | _ => wordsFrom (c :: word) 0 rest

def words (line : List Char) : List Word :=
  wordsFrom [] 0 line

/-- The text of words in a row, without the blanks after the last one. -/
def join : List Word → List Char
  | [] => []
  | [word] => word.text
  | word :: rest => word.text ++ List.replicate word.blanks ' ' ++ join rest

/-! ## Lines -/

/-- The price of a line of a given width among others: each costs the same, a gap costs its square,
and columns past the limit cost the most. A short single word at the end costs a little. -/
def lineCost (limit width count : Nat) (isLast : Bool) : Nat :=
  1000 +
    if limit < width then (width - limit) * 2500
    else if !isLast then (limit - width) * (limit - width)
    else if count = 1 && width * 4 < limit then 25
    else 0

/-- A way to break some words into lines, and its price. -/
structure Layout where
  cost : Nat
  lines : List (List Word)
  deriving Repr

/-- The cheaper of two ways. -/
def cheaper (a b : Layout) : Layout :=
  if b.cost < a.cost then b else a

/-- The cheapest way that starts with a line of some of the words, `line` being in it already; the
ways for the words after each of the others are given. -/
def extend (limit : Nat) (line : List Word) : List (Word × Layout) → Option Layout
  | [] => none
  | (word, rest) :: others =>
    let line := line ++ [word]
    let cost := lineCost limit (Text.width (join line)) line.length rest.lines.isEmpty
    let here : Layout := ⟨cost + rest.cost, line :: rest.lines⟩
    match extend limit line others with
    | none => some here
    | some further => some (cheaper here further)

/-- Each word with the cheapest way to break the words after it, and the cheapest way for all. -/
def layouts (limit : Nat) : List Word → List (Word × Layout) × Layout
  | [] => ([], ⟨0, []⟩)
  | word :: rest =>
    let (others, after) := layouts limit rest
    let all := (word, after) :: others
    (all, (extend limit [] all).getD ⟨0, []⟩)

/-- The lines of a paragraph without line ends. -/
def wrapLine (limit : Nat) (line : List Char) : List (List Char) :=
  match (layouts limit (words line)).2.lines with
  | [] => [[]]
  | lines => lines.map join

end Wrap

/-- The lines of a text, indented by `first` or `later`, which take the same number of columns. -/
def wrap (columns : Nat) (first later : String) (text : String) : String :=
  let limit := columns - Text.width first.toList
  let lines := (Text.splitOn '\n' text.toList).flatMap (Wrap.wrapLine limit)
  match lines with
  | [] => first
  | line :: rest =>
    "\n".intercalate
      ((first ++ String.ofList line) :: rest.map fun line => later ++ String.ofList line)

end TypeNameLint
