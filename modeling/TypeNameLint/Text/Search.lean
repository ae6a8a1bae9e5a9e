/-!
# Text.Search — finding one text inside another

- `stripStart?`: what follows a given beginning;
- `splitOnce?`: what stands before and after the first occurrence of a mark;
- `contains`, `removePairs`, `replaceFirst`: occurrences anywhere in a text.
-/

namespace TypeNameLint
namespace Text

/-- What follows the mark at the start of the text, if the text starts with it. -/
def stripStart? : List Char → List Char → Option (List Char)
  | [], cs => some cs
  | _ :: _, [] => none
  | m :: mark, c :: cs => if m = c then stripStart? mark cs else none

def startsWith (mark cs : List Char) : Bool :=
  (stripStart? mark cs).isSome

/-- What stands before and after the first occurrence of the mark. -/
def splitOnce? (mark : List Char) : List Char → Option (List Char × List Char)
  | [] => if mark.isEmpty then some ([], []) else none
  | c :: cs =>
    match stripStart? mark (c :: cs) with
    | some rest => some ([], rest)
    | none => (splitOnce? mark cs).map fun (before, after) => (c :: before, after)

def contains (mark cs : List Char) : Bool :=
  (splitOnce? mark cs).isSome

/-- The text without the leftmost, non-overlapping occurrences of the two-character mark `a b`. -/
def removePairs (a b : Char) : List Char → List Char
  | c :: d :: cs => if c = a ∧ d = b then removePairs a b cs else c :: removePairs a b (d :: cs)
  | [c] => [c]
  | [] => []

/-- The text with the first occurrence of the mark replaced. -/
def replaceFirst (mark new cs : List Char) : List Char :=
  match splitOnce? mark cs with
  | some (before, after) => before ++ new ++ after
  | none => cs

end Text
end TypeNameLint
