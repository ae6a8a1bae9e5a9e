import TypeNameLint.FileStore
import TypeNameLint.Ignore.Pattern
import TypeNameLint.Text.Blank

/-!
# Ignore.Rules — the lines of an ignore file

Each line is a pattern of ignored paths below the directory of the file, or of paths that are to be
seen in spite of an earlier line. Lines that are no patterns are dropped. This file defines:

- `Verdict`: what the rules say about a path;
- `Rule`, `Rule.ofLine`: one line;
- `Rules`, `Rules.ofContent`, `Rules.verdict`: a file, and the last rule that matches a path;
- `LineFault`: a dropped line.
-/

namespace TypeNameLint
namespace Ignore

/-- What rules say about a path. -/
inductive Verdict where
  | silent
  | ignored
  | seen
  deriving DecidableEq, Repr

namespace Verdict

/-- The first verdict, or the second one if the first is silent. -/
def orElse : Verdict → Verdict → Verdict
  | silent, other => other
  | verdict, _ => verdict

end Verdict

/-! ## Lines -/

/-- One line: its pattern, whether matched paths are to be seen, and whether only directories
match. -/
structure Rule where
  pattern : List Token
  isSeen : Bool
  onlyDirectories : Bool
  deriving Repr

/-- A line that is dropped: its number, and its text with the fault that makes it no pattern. The
text is missing if the line is none, which drops all lines after it too. -/
structure LineFault where
  number : Nat
  pattern : Option (String × PatternFault)
  deriving Repr

namespace Rule

/-- The line without trailing blanks, unless the last of them is escaped. -/
def trimLine (line : List Char) : List Char :=
  if ['\\', ' '].isSuffixOf line then line else Text.trimEnd line

def startsAnywhere (cs : List Char) : Bool :=
  ['*', '*', '/'].isPrefixOf cs || cs = ['*', '*']

/-- The pattern of a path: without a slash it matches in every directory, and everything below a
directory does not include the directory. -/
def completed (anchored : Bool) (cs : List Char) : List Char :=
  let cs :=
    if !anchored && !cs.contains '/' && !startsAnywhere cs then ['*', '*', '/'] ++ cs else cs
  if ['/', '*', '*'].isSuffixOf cs then cs ++ ['/', '*'] else cs

/-- The parts of a line: whether matched paths are to be seen, whether the pattern starts at the
directory of the file, and the rest. -/
def marks : List Char → Bool × Bool × List Char
  | '\\' :: '!' :: rest => (false, false, '!' :: rest)
  | '\\' :: '#' :: rest => (false, false, '#' :: rest)
  | '!' :: '/' :: rest => (true, true, rest)
  | '!' :: rest => (true, false, rest)
  | '/' :: rest => (false, true, rest)
  | cs => (false, false, cs)

/-- The pattern without a slash at its end, and whether there was one. An escape before the slash
goes too. -/
def dropSlash (cs : List Char) : Bool × List Char :=
  match cs.reverse with
  | '/' :: '\\' :: before => (true, before.reverse)
  | '/' :: before => (true, before.reverse)
  | _ => (false, cs)

/-- The rule of a line, if it has one. -/
def ofLine (number : Nat) (line : List Char) : Except LineFault (Option Rule) :=
  -- Blanks in front of the mark make the line a pattern.
  if line.head? = some '#' then .ok none
  else
    let line := trimLine line
    if line.isEmpty then .ok none
    else
      let (isSeen, anchored, rest) := marks line
      let (onlyDirectories, rest) := dropSlash rest
      match parse (completed anchored rest) with
      | .error fault => .error ⟨number, some (String.ofList line, fault)⟩
      | .ok pattern => .ok (some ⟨pattern, isSeen, onlyDirectories⟩)

/-- Whether a rule is about a path. -/
def isAbout (rule : Rule) (isDirectory : Bool) (path : List UInt8) : Bool :=
  (!rule.onlyDirectories || isDirectory) && isMatch rule.pattern path

/-- What a rule says about the paths it is about. -/
def verdict (rule : Rule) : Verdict :=
  if rule.isSeen then .seen else .ignored

end Rule

/-! ## Files -/

/-- The rules of a file and the lines that were dropped. -/
structure Rules where
  rules : List Rule
  faults : List LineFault
  deriving Repr

namespace Rules

def none : Rules := ⟨[], []⟩

/-- The lines of some bytes, without the text of those that are no text. -/
def linesOfBytes (data : List UInt8) : List (Option (List Char)) :=
  (data.splitOn 10).map fun piece =>
    (String.fromUTF8? ⟨piece.toArray⟩).map fun s => Text.dropReturn s.toList

def linesOf : Content → List (Option (List Char))
  | .text s => (Text.lines s.toList).map some
  | .bytes data => linesOfBytes data

def ofLines (number : Nat) : List (Option (List Char)) → Rules
  | [] => none
  -- Reading stops at a line that is no text, and the lines before it keep their rules.
  | Option.none :: _ => ⟨[], [⟨number, Option.none⟩]⟩
  | some line :: lines =>
    let later := ofLines (number + 1) lines
    match Rule.ofLine number line with
    | .error fault => { later with faults := fault :: later.faults }
    | .ok Option.none => later
    | .ok (some rule) => { later with rules := rule :: later.rules }

/-- The lines without a byte order mark at their start. -/
def dropMark : List (Option (List Char)) → List (Option (List Char))
  | some first :: lines => some (first.dropWhile (· = '\uFEFF')) :: lines
  | lines => lines

def ofContent (content : Content) : Rules :=
  ofLines 1 (dropMark (linesOf content))

def pathBytes (names : Names) : List UInt8 :=
  (String.intercalate "/" names).toUTF8.toList

/-- What the last rule about a path says. The names lead to it from the directory of the file. -/
def verdict (rules : Rules) (isDirectory : Bool) (names : Names) : Verdict :=
  let path := pathBytes names
  match rules.rules.reverse.find? fun rule => rule.isAbout isDirectory path with
  | some rule => rule.verdict
  | Option.none => .silent

end Rules
end Ignore
end TypeNameLint
