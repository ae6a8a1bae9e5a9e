/-!
# Glob — shell patterns for whole paths

A pattern matches a whole path. `?` stands for any character, `*` for any text, slashes included,
`[abc]` and `[!a-c]` for one character of a set or of its complement. `**`, which has to fill the
space between two slashes, stands for any number of directories, or for all that is left. This file
defines:

- `Glob.Token`, `Glob`: patterns;
- `GlobFault`, `Glob.parse`: the pattern that a text spells;
- `Glob.matchesChars`, `Glob.isMatch`: the test of a path.
-/

namespace TypeNameLint

/-! ## Patterns -/

/-- The characters from a first to a last one. -/
structure CharRange where
  first : Char
  last : Char
  deriving DecidableEq, Repr

namespace CharRange

def has (r : CharRange) (c : Char) : Bool :=
  r.first ≤ c && c ≤ r.last

end CharRange

namespace Glob

/-- A part of a pattern. -/
inductive Token where
  | char (c : Char)
  | any
  | text
  | directories
  | within (ranges : List CharRange)
  | except (ranges : List CharRange)
  deriving DecidableEq, Repr

end Glob

/-- A pattern. -/
structure Glob where
  tokens : List Glob.Token
  deriving DecidableEq, Repr

/-! ## Reading -/

/-- Why a text is no pattern. -/
inductive GlobFault where
  /-- Three or more stars in a row. -/
  | stars (position : Nat)
  /-- Two stars that do not fill the space between slashes. -/
  | partialDirectories (position : Nat)
  /-- A bracket that opens no set. -/
  | openSet (position : Nat)
  deriving DecidableEq, Repr

namespace GlobFault

/-- The number of characters before the fault. -/
def position : GlobFault → Nat
  | stars n => n
  | partialDirectories n => n
  | openSet n => n

def reason : GlobFault → String
  | stars _ => "wildcards are either regular `*` or recursive `**`"
  | partialDirectories _ => "recursive wildcards must form a single path component"
  | openSet _ => "invalid range pattern"

def message (fault : GlobFault) : String :=
  s!"Pattern syntax error near position {fault.position}: {fault.reason}"

end GlobFault

namespace Glob

def ranges : List Char → List CharRange
  | first :: '-' :: last :: rest => ⟨first, last⟩ :: ranges rest
  | c :: rest => ⟨c, c⟩ :: ranges rest
  | [] => []

/-- The inside of a pair of brackets: at least one character, and all up to the next bracket. -/
def inside? : List Char → Option (List Char)
  | [] => none
  | first :: rest =>
    if rest.contains ']' then some (first :: rest.takeWhile (· ≠ ']')) else none

/-- The set after an opening bracket, and the number of characters up to its end. -/
def set? : List Char → Option (Token × Nat)
  | '!' :: rest => (inside? rest).map fun inside => (.except (ranges inside), inside.length + 2)
  | rest => (inside? rest).map fun inside => (.within (ranges inside), inside.length + 1)

/-- The tokens with one more for directories, unless there is one at the end already. -/
def addDirectories (tokens : List Token) : List Token :=
  -- As the only token so far it is repeated, which matches the same paths.
  if tokens.length > 1 ∧ tokens.head? = some .directories then tokens else .directories :: tokens

/-- The tokens of a text, `position` characters of which stand before, the last of them being
`previous`. The next `skip` characters belong to a token that is complete; the tokens so far are
kept in reverse. -/
def scan (tokens : List Token) (position skip : Nat) (previous : Option Char) :
    List Char → Except GlobFault (List Token)
  | [] => .ok tokens.reverse
  | c :: rest =>
    match skip with
    | skip + 1 => scan tokens (position + 1) skip (some c) rest
    | 0 =>
      let next := fun (token : Token) => scan (token :: tokens) (position + 1) 0 (some c) rest
      if c = '?' then next .any
      else if c = '[' then
        match set? rest with
        | some (token, length) => scan (token :: tokens) (position + 1) length (some c) rest
        | none => .error (.openSet position)
      else if c = '*' then
        match rest with
        | '*' :: '*' :: _ => .error (.stars (position + 2))
        -- Two stars have to fill the space between slashes, in front as well as behind.
        | '*' :: '/' :: _ =>
          if previous.all (· = '/') then
            scan (addDirectories tokens) (position + 1) 2 (some c) rest
          else .error (.partialDirectories (position - 1))
        | ['*'] =>
          if previous.all (· = '/') then
            scan (addDirectories tokens) (position + 1) 1 (some c) rest
          else .error (.partialDirectories (position - 1))
        | '*' :: _ =>
          if previous.all (· = '/') then .error (.partialDirectories (position + 2))
          else .error (.partialDirectories (position - 1))
        | _ => next .text
      else next (.char c)

def parse (text : String) : Except GlobFault Glob :=
  (scan [] 0 0 none text.toList).map Glob.mk

/-! ## Matching -/

/-- The ends of a text, from the whole text to the empty one. -/
def ends : List Char → List (List Char)
  | [] => [[]]
  | c :: cs => (c :: cs) :: ends cs

/-- What follows each slash of a text, and the end of the text. -/
def afterSlashes : List Char → List (List Char)
  | [] => [[]]
  | c :: cs => if c = '/' then cs :: afterSlashes cs else afterSlashes cs

/-- Whether a token that stands for one character stands for a given one. -/
def Token.matchesChar (c : Char) : Token → Bool
  | .char d => c = d
  | .any => true
  | .within ranges => ranges.any fun range => range.has c
  | .except ranges => !ranges.any fun range => range.has c
  | _ => false

def matchesChars : List Token → List Char → Bool
  | [], cs => cs.isEmpty
  | .text :: tokens, cs => (ends cs).any (matchesChars tokens)
  | .directories :: tokens, cs => (cs :: afterSlashes cs).any (matchesChars tokens)
  | _ :: _, [] => false
  | token :: tokens, c :: cs => token.matchesChar c && matchesChars tokens cs

def isMatch (glob : Glob) (path : String) : Bool :=
  matchesChars glob.tokens path.toList

end Glob
end TypeNameLint
