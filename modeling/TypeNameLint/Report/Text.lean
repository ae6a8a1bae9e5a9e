import TypeNameLint.Report.Basic

/-!
# Report.Text — violations as plain text

- `Violation.paragraph`: the report over several lines;
- `Violation.summaryLine`: the report on one line;
- `Violation.diagnostic`: the parts that a report with a source snippet shows.
-/

namespace TypeNameLint

namespace Text

/-- The lines of a string, as strings. -/
def stringLines (s : String) : List String :=
  (lines s.toList).map String.ofList

end Text

namespace Violation

def place (v : Violation) : String :=
  s!"{v.location.file.text}:{v.location.line}:{v.location.column}"

/-- A header line, the message with its later lines indented under the first, and the help. -/
def paragraph (v : Violation) : String :=
  let messageLines := Text.stringLines v.message
  let header := s!"{v.code} {v.rule} at {v.place}\n"
  let first := s!"  {v.severity.name}: " ++ messageLines.headD "" ++ "\n"
  let later := String.join (messageLines.tail.map fun line => s!"    {line}\n")
  let help :=
    match v.suggestion with
    | some suggestion => s!"  = help: {suggestion.message}\n"
    | none => ""
  header ++ first ++ later ++ help

/-- The report on one line: the line ends of the message become spaces. -/
def summaryLine (v : Violation) : String :=
  let message := String.intercalate " " (Text.stringLines v.message)
  s!"{v.place}: {v.severity.name} [{v.code}] {message}"

end Violation

/-- What a report with a source snippet shows of a violation: a message, help, and a label under a
byte span. -/
structure Diagnostic where
  message : String
  help : Option String
  label : String
  offset : Nat
  length : Nat
  deriving DecidableEq, Repr

def Violation.diagnostic (v : Violation) : Diagnostic where
  message := s!"[{v.code}] {v.message}"
  help := v.suggestion.map Suggestion.message
  label := v.rule
  offset := v.location.offset
  length := v.location.length

end TypeNameLint
