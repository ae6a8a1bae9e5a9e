import TypeNameLint.Ban.Table
import TypeNameLint.CommandLine.Invocation
import TypeNameLint.Report.Json
import TypeNameLint.Report.Snippet
import TypeNameLint.Text.Search

/-!
# CommandLine.Print — what commands print

- `paragraph`, `snippet`, `summary`: the parts of reports;
- `report`: a report in a format;
- `listing`: the list of banned names.
-/

namespace TypeNameLint
namespace CommandLine

/-! ## Colours -/

def painted (colour text : String) : String :=
  s!"\x1b[{colour}m{text}\x1b[0m"

def colourOf : Severity → String
  | .error => "31"
  | .warning => "33"
  | .info => "34"

/-- The colour of a summary: that of the most serious violations, or green. -/
def summaryColour (r : LintResult) : String :=
  if 0 < r.count .error then "31" else if 0 < r.count .warning then "33" else "32"

/-! ## Reports -/

/-- A violation over several lines, with its severity in colour. The first text that looks like the
severity is coloured, even if it is a part of the name of the file. -/
def paragraph (v : Violation) : String :=
  let plain := s!"  {v.severity.name}:"
  let coloured := "  " ++ painted (colourOf v.severity) v.severity.name ++ ":"
  String.ofList (Text.replaceFirst plain.toList coloured.toList v.paragraph.toList) ++ "\n"

/-- A violation with the source around it, as far as that is known. -/
def snippet (contentOf : Path → Option String) (v : Violation) : String :=
  v.diagnostic.render v.location.file.text (contentOf v.location.file) ++ "\n"

/-- The counts of a report, what was fixed, and what can be. -/
def summary (r : LintResult) : String :=
  let errors := r.count .error
  let warnings := r.count .warning
  let infos := r.count .info
  let found := painted (summaryColour r)
    s!"Found {errors} error(s), {warnings} warning(s), {infos} info(s) in {r.filesChecked} file(s)"
  let applied := if 0 < r.fixesApplied then s!"Applied {r.fixesApplied} fix(es)\n" else ""
  let fixable := r.fixable
  let fixNote :=
    if 0 < fixable then s!"{fixable} violation(s) can be fixed with `typeban check --fix`\n" else ""
  found ++ "\n" ++ applied ++ fixNote

/-- A report in a format, with the sources of reported paths where they are known. -/
def report (contentOf : Path → Option String) (r : LintResult) : Format → String
  | .text => String.join (r.violations.map paragraph) ++ summary r
  | .pretty => String.join (r.violations.map (snippet contentOf)) ++ summary r
  | .json => r.toJson ++ "\n"
  | .compact => String.join (r.violations.map fun v => v.summaryLine ++ "\n")

/-! ## Banned names -/

/-- A text with blanks after it up to a number of characters. -/
def padded (count : Nat) (s : String) : String :=
  s ++ String.ofList (List.replicate (count - s.length) ' ')

def row (name fix message : String) : String :=
  s!"{padded 28 name} {padded 18 fix} {message}\n"

/-- The first line of the message that a ban adds. -/
def firstLine (spec : BanSpec) : String :=
  let lines := Text.lines (Text.trimStart spec.messageSuffix.toList)
  String.ofList (lines.headD [])

def listing (table : BanTable) : String :=
  if table.isEmpty then "No banned types configured.\n"
  else
    let rows := table.toList.map fun entry =>
      row entry.1 (entry.2.fixWith?.getD "-") (firstLine entry.2)
    "Banned types:\n\n" ++ row "Type" "Fix" "Message" ++
      String.ofList (List.replicate 80 '-') ++ "\n" ++ String.join rows ++
      s!"\n{table.size} type(s) banned\n"

end CommandLine
end TypeNameLint
