/-!
# Ignore.Pattern — patterns of ignore files

A pattern matches a whole relative path, given as bytes. `?` and `*` stay within one name, `[a-z]`
and `[!a-z]` stand for one byte, a pair of braces for one of several patterns, and `**` for any
number of directories where it fills the space between slashes. A bracket without an end stands for
itself. This file defines:

- `Token`: the parts of a pattern;
- `PatternFault`: why a text is no pattern;
- `parse`: the pattern that a text spells;
- `expand`, `matchesBytes`, `isMatch`: the test of a path.
-/

namespace TypeNameLint
namespace Ignore

/-! ## Patterns -/

/-- A part of a pattern. -/
inductive Token where
  | byte (b : UInt8)
  | any
  | name
  /-- Any directories, at the start. -/
  | leading
  /-- Any directories, between two slashes. -/
  | between
  /-- Everything below, at the end. -/
  | trailing
  | oneOf (negated : Bool) (ranges : List (UInt8 × UInt8))
  | choice (options : List (List Token))
  deriving Repr

/-- Why a text is no pattern. -/
inductive PatternFault where
  | reversedRange (first last : Char)
  | unopenedChoice
  | unclosedChoice
  | lastEscape
  deriving DecidableEq, Repr

namespace PatternFault

def message : PatternFault → String
  | reversedRange first last => s!"invalid range; '{first}' > '{last}'"
  | unopenedChoice =>
    "unopened alternate group; missing '\x7b' (maybe escape '\x7d' with '[\x7d]'?)"
  | unclosedChoice =>
    "unclosed alternate group; missing '\x7d' (maybe escape '\x7b' with '[\x7b]'?)"
  | lastEscape => "dangling '\\'"

end PatternFault

/-! ## Sets -/

def bytesOf (c : Char) : List UInt8 :=
  (String.singleton c).toUTF8.toList

/-- The ranges of bytes that a range of characters spells: the first one goes from the last byte of
the first character to the first byte of the last character, all other bytes stand alone. -/
def byteRanges (first last : Char) : List (UInt8 × UInt8) :=
  let alone := fun (bytes : List UInt8) => bytes.map fun b => (b, b)
  if first = last then alone (bytesOf first)
  else
    match (bytesOf first).reverse, bytesOf last with
    | low :: before, high :: after => alone before.reverse ++ (low, high) :: alone after
    | _, _ => []

/-- A set that is being read: the ranges so far in reverse, and whether a dash was the last
character. -/
structure SetState where
  ranges : List (Char × Char)
  inRange : Bool
  deriving Repr

/-- The ranges of a set after its first character, and the number of characters up to its end, if
it has one. -/
def setRanges (state : SetState) (length : Nat) :
    List Char → Except PatternFault (Option (List (Char × Char) × Nat))
  | [] => .ok none
  | ']' :: _ =>
    -- A dash with nothing to end its range stands for itself.
    let ranges := if state.inRange then ('-', '-') :: state.ranges else state.ranges
    .ok (some (ranges.reverse, length + 1))
  | c :: rest =>
    match state.inRange, state.ranges with
    | true, (first, _) :: ranges =>
      if c < first then .error (.reversedRange first c)
      else setRanges ⟨(first, c) :: ranges, false⟩ (length + 1) rest
    | _, ranges =>
      if c = '-' then setRanges ⟨ranges, true⟩ (length + 1) rest
      else setRanges ⟨(c, c) :: ranges, false⟩ (length + 1) rest

/-- The set of characters or of their complement whose text starts here, and the number of
characters up to its end. -/
def setBody (negated : Bool) : List Char → Except PatternFault (Option (Token × Nat))
  | [] => .ok none
  | c :: rest =>
    -- The first character belongs to the set even if it is a closing bracket.
    (setRanges ⟨[(c, c)], false⟩ 1 rest).map fun found =>
      found.map fun (ranges, length) =>
        (.oneOf negated (ranges.flatMap fun range => byteRanges range.1 range.2), length)

/-- The set after an opening bracket, and the number of characters up to its end. -/
def set : List Char → Except PatternFault (Option (Token × Nat))
  | [] => .ok none
  | c :: rest =>
    if c = '!' ∨ c = '^' then
      (setBody true rest).map fun found => found.map fun (token, length) => (token, length + 1)
    else setBody false (c :: rest)

/-! ## Reading -/

/-- A pair of braces that is being read: its finished options, and the tokens before it, in
reverse. -/
structure OpenChoice where
  options : List (List Token)
  before : List Token
  deriving Repr

/-- What has been read: the tokens of the innermost text in reverse, the braces around it, and
whether a bracket without an end was seen, after which all brackets stand for themselves. -/
structure State where
  current : List Token
  choices : List OpenChoice
  sawOpenSet : Bool
  deriving Repr

namespace State

def inChoice (state : State) : Bool := !state.choices.isEmpty

def push (state : State) (tokens : List Token) : State :=
  { state with current := tokens.reverse ++ state.current }

/-- The state with the last token replaced by one for directories, unless that is one already. -/
def pushDirectories (state : State) (token : Token) : State :=
  match state.current with
  | .leading :: _ => state
  | .trailing :: _ => state
  | _ :: before => { state with current := token :: before }
  | [] => { state with current := [token] }

/-- Whether two stars after a character can stand for directories. -/
def allowsDirectories (state : State) (previous : Option Char) : Bool :=
  previous = some '/' || (state.inChoice && (previous = some ',' || previous = some '\x7b'))

/-- The state after two stars, and how many characters after them belong to the token. -/
def pushStars (state : State) (previous : Option Char) (rest : List Char) : State × Nat :=
  let plain := (state.push [.name, .name], 0)
  -- At the start, of the pattern or of an option, no slash has to stand in front.
  if state.current.isEmpty then
    match rest with
    | [] => (state.push [.leading], 0)
    | '/' :: _ => (state.push [.leading], 1)
    | _ => plain
  else if state.allowsDirectories previous then
    match rest with
    | [] => (state.pushDirectories .trailing, 0)
    | '/' :: _ => (state.pushDirectories .between, 1)
    | c :: _ =>
      if state.inChoice && (c = ',' || c = '\x7d') then (state.pushDirectories .trailing, 0)
      else plain
  else plain

/-- The state after a comma. -/
def pushComma (state : State) : State :=
  match state.choices with
  | [] => state.push [.byte 44]
  | choice :: outer =>
    { state with
      current := []
      choices := { choice with options := state.current.reverse :: choice.options } :: outer }

/-- The state after an opening brace. -/
def openChoice (state : State) : State :=
  { state with current := [], choices := ⟨[], state.current⟩ :: state.choices }

/-- The state after a closing brace. -/
def closeChoice (state : State) : Except PatternFault State :=
  match state.choices with
  | [] => .error .unopenedChoice
  | choice :: outer =>
    .ok { state with
      current := .choice (state.current.reverse :: choice.options) :: choice.before
      choices := outer }

end State

/-- The state after a text, of which the next `skip` characters belong to a token that is complete
and the character before is `previous`. -/
def scan (state : State) (skip : Nat) (previous : Option Char) :
    List Char → Except PatternFault State
  | [] => .ok state
  | c :: rest =>
    match skip with
    | skip + 1 => scan state skip (some c) rest
    | 0 =>
      match c with
      | '?' => scan (state.push [.any]) 0 (some c) rest
      | '*' =>
        match rest with
        | '*' :: after =>
          let (state, length) := state.pushStars previous after
          scan state (length + 1) (some c) rest
        | _ => scan (state.push [.name]) 0 (some c) rest
      | '[' =>
        -- Once a bracket had no end, none is looked for any more.
        if state.sawOpenSet then scan (state.push [.byte 91]) 0 (some c) rest
        else
          match set rest with
          | .error fault => .error fault
          | .ok (some (token, length)) => scan (state.push [token]) length (some c) rest
          | .ok none =>
            scan { state.push [.byte 91] with sawOpenSet := true } 0 (some c) rest
      | '\x7b' => scan state.openChoice 0 (some c) rest
      | '\x7d' =>
        match state.closeChoice with
        | .error fault => .error fault
        | .ok state => scan state 0 (some c) rest
      | ',' => scan state.pushComma 0 (some c) rest
      | '\\' =>
        match rest with
        | [] => .error .lastEscape
        | d :: _ => scan (state.push ((bytesOf d).map .byte)) 1 (some c) rest
      | c => scan (state.push ((bytesOf c).map .byte)) 0 (some c) rest

def parse (text : List Char) : Except PatternFault (List Token) :=
  match scan ⟨[], [], false⟩ 0 none text with
  | .error fault => .error fault
  | .ok state => if state.inChoice then .error .unclosedChoice else .ok state.current.reverse

/-! ## Matching -/

mutual

/-- The patterns without choices that a pattern stands for. -/
def expand : List Token → List (List Token)
  | [] => [[]]
  | token :: tokens =>
    (expandToken token).flatMap fun start => (expand tokens).map fun rest => start ++ rest

/-- The patterns without choices that a token stands for. Empty options do not count, and a choice
without any other stands for the empty pattern. -/
def expandToken : Token → List (List Token)
  | .choice options =>
    match (expandOptions options).filter fun tokens => !tokens.isEmpty with
    | [] => [[]]
    | found => found
  | token => [[token]]

/-- The patterns without choices that some options stand for. -/
def expandOptions : List (List Token) → List (List Token)
  | [] => []
  | option :: options => expand option ++ expandOptions options

end

def slash : UInt8 := 47

/-- The ends of a text, from the whole text to the empty one. -/
def ends : List UInt8 → List (List UInt8)
  | [] => [[]]
  | b :: bs => (b :: bs) :: ends bs

/-- The ends of a text that are reached within its first name. -/
def endsInName : List UInt8 → List (List UInt8)
  | [] => [[]]
  | b :: bs => if b = slash then [b :: bs] else (b :: bs) :: endsInName bs

/-- What follows each slash of a text. -/
def afterSlashes : List UInt8 → List (List UInt8)
  | [] => []
  | b :: bs => if b = slash then bs :: afterSlashes bs else afterSlashes bs

def matchesBytes : List Token → List UInt8 → Bool
  | [], bs => bs.isEmpty
  | .name :: tokens, bs => (endsInName bs).any (matchesBytes tokens)
  | .leading :: tokens, bs => (bs :: afterSlashes bs).any (matchesBytes tokens)
  | _ :: _, [] => false
  | .byte c :: tokens, b :: bs => b = c && matchesBytes tokens bs
  | .any :: tokens, b :: bs => b ≠ slash && matchesBytes tokens bs
  | .oneOf negated ranges :: tokens, b :: bs =>
    (ranges.any (fun range => range.1 ≤ b && b ≤ range.2)) ≠ negated && matchesBytes tokens bs
  | .between :: tokens, b :: bs =>
    b = slash && (bs :: afterSlashes bs).any (matchesBytes tokens)
  | .trailing :: tokens, b :: bs => b = slash && (ends bs).any (matchesBytes tokens)
  -- No choice is left once a pattern is expanded.
  | .choice _ :: _, _ :: _ => false

/-- Whether a pattern matches a path. Two stars alone match everything. -/
def isMatch (pattern : List Token) (path : List UInt8) : Bool :=
  match pattern with
  | [.leading] => true
  | pattern => (expand pattern).any fun tokens => matchesBytes tokens path

end Ignore
end TypeNameLint
