import TypeNameLint.Text.Blank
import TypeNameLint.Text.Lines
import TypeNameLint.Text.Search

/-!
# Directive — comments that exempt a line from rules

A comment such as `// typeban: allow(ban-types) reason="generated"` exempts its line from the rules
it names. On a line that starts with the comment it also exempts the line below. The name `all`
stands for every rule. This file defines:

- `Directive`, `Directive.covers`: a directive and the rules it exempts from;
- `Directive.parse?`: the directive in the comment of a line;
- `Exemption`, `exemption`: whether a line is exempt from a rule, and for which reason.
-/

namespace TypeNameLint

/-- A directive: the names between its parentheses, without repetition and in order, and its
reason. -/
structure Directive where
  rules : List String
  reason : Option String
  deriving DecidableEq, Repr

namespace Directive

/-! ## Reading a line -/

/-- The list with a name added at its place, unless it is there already. -/
def insertName (name : String) : List String → List String
  | [] => [name]
  | other :: names =>
    if name = other then other :: names
    else if name < other then name :: other :: names
    else other :: insertName name names

/-- The text up to the first `*/`, or all of it. -/
def blockBody (cs : List Char) : List Char :=
  ((Text.splitOnce? ['*', '/'] cs).map Prod.fst).getD cs

/-- The text of the first comment of a line. -/
def commentText? : List Char → Option (List Char)
  -- Strings are not told from code, so a mark inside one counts too.
  | '/' :: '/' :: rest => some rest
  | '/' :: '*' :: rest => some (blockBody rest)
  | _ :: rest => commentText? rest
  | [] => none

def marker : List Char := "typeban:".toList

/-- The names in a list separated by commas, trimmed, without the empty ones. -/
def names (list : List Char) : List String :=
  (((Text.splitOn ',' list).map Text.trim).filter fun name => !name.isEmpty).map String.ofList

/-- The quoted text after `reason=`, with nothing but blanks in front. -/
def reason? (cs : List Char) : Option String := do
  let quoted ← Text.stripStart? "reason=\"".toList (Text.trim cs)
  let (reason, _) ← Text.splitOnce? ['"'] quoted
  return String.ofList reason

def ofComment? (comment : List Char) : Option Directive := do
  let body ← Text.stripStart? marker (Text.trimStart comment)
  let body ← Text.stripStart? "allow".toList (Text.trimStart body)
  let body ← Text.stripStart? ['('] (Text.trimStart body)
  let (list, rest) ← Text.splitOnce? [')'] body
  match names list with
  | [] => none
  -- The reason has to follow the parenthesis with nothing but blanks in between.
  | names => some ⟨names.foldr insertName [], reason? rest⟩

def parse? (line : List Char) : Option Directive :=
  (commentText? line).bind ofComment?

/-! ## Exemptions -/

def covers (d : Directive) (rule : String) : Bool :=
  d.rules.contains rule || d.rules.contains "all"

end Directive

/-- Whether a line is exempt from a rule. -/
inductive Exemption where
  | denied
  | allowed (reason : Option String)
  deriving DecidableEq, Repr

namespace Exemption

def isAllowed : Exemption → Bool
  | denied => false
  | allowed _ => true

def reason? : Exemption → Option String
  | denied => none
  | allowed reason => reason

end Exemption

def startsWithComment (line : List Char) : Bool :=
  let body := Text.trimStart line
  Text.startsWith ['/', '/'] body || Text.startsWith ['/', '*'] body

/-- The lines that can exempt the line of index `index`: the one before it, if that starts with a
comment, and the line itself. -/
def exemptingLines (lines : List (List Char)) (index : Nat) : List (List Char) :=
  let before := if index = 0 then [] else lines[index - 1]?.toList
  before.filter startsWithComment ++ lines[index]?.toList

/-- Whether the line of number `line`, counted from one, is exempt from a rule. Of two directives
that cover the rule the one on the upper line counts. -/
def exemption (content : String) (line : Nat) (rule : String) : Exemption :=
  match line with
  | 0 => .denied
  | index + 1 =>
    let directives := (exemptingLines (Text.lines content.toList) index).filterMap Directive.parse?
    match directives.find? fun directive => directive.covers rule with
    | some directive => .allowed directive.reason
    | none => .denied

end TypeNameLint
