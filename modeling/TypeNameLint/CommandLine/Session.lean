import TypeNameLint.Analysis.Run
import TypeNameLint.CommandLine.ConfigSource
import TypeNameLint.CommandLine.Print
import TypeNameLint.CommandLine.Template

/-!
# CommandLine.Session — running a command

- `Complaint`: why a command fails;
- `Outcome`: what a command prints, its status, and the files it leaves;
- `reported`, `prints`, `printed`: how a check ends that comes to a result;
- `check`, `listTypes`, `init`: the commands;
- `run`: a command line.
-/

namespace TypeNameLint
namespace CommandLine

/-! ## Outcomes -/

/-- Why a command fails. -/
inductive Complaint where
  | config (path : Path)
  | rules
  | patterns
  | analysis
  | options
  | alreadyThere
  | foreignPath
  | file (fault : FileFault)
  deriving DecidableEq, Repr

namespace Complaint

def message : Complaint → String
  | config path => s!"Failed to load config: {path.text}"
  | rules => "Invalid rule configuration"
  | patterns => "Failed to build analyzer"
  | analysis => "Analysis failed"
  | options => "Invalid [rules.ban-types] configuration"
  | alreadyThere =>
    s!"Configuration file already exists at {templateName}. Use --force to overwrite."
  | foreignPath => "path contains invalid UTF-8 characters"
  | file fault => fault.message

end Complaint

/-- What a command leaves: its status, what it prints, its complaint, and the files. -/
structure Outcome where
  status : Nat
  output : String
  complaint : Option Complaint
  store : FileStore

namespace Outcome

def failed (store : FileStore) (complaint : Complaint) : Outcome :=
  ⟨1, "", some complaint, store⟩

def done (store : FileStore) (output : String) : Outcome :=
  ⟨0, output, none, store⟩

def errorLine (outcome : Outcome) : Option String :=
  outcome.complaint.map fun complaint => s!"Error: {complaint.message}"

end Outcome

/-! ## Commands -/

/-- The languages that are checked, with their parsers. -/
structure Parsers where
  typeScript : String → Option Tree
  typeScriptJsx : String → Option Tree

def Parsers.languages (parsers : Parsers) : List Language :=
  [.typeScript parsers.typeScript, .typeScriptJsx parsers.typeScriptJsx]

/-- What a check asks for. The path always takes the place of the configured root. -/
def requestOf (parsers : Parsers) (config : Config) (rule : BanRule) (path : Path)
    (exclude : List String) (fixes : Bool) : Request where
  root := some path
  rules := [rule.toRule]
  languages := parsers.languages
  exclude := exclude
  config := config
  failsWithoutTree := false
  fixes := fixes

/-- A report, whose status tells whether there are errors in it. -/
def reported (analysis : Analysis) (format : Format) (result : LintResult) (store : FileStore) :
    Outcome :=
  let base := analysis.base store
  let contentOf := fun (path : Path) => (store.read [] (base.join path)).toOption
  ⟨if result.hasErrors then 1 else 0, report contentOf result format, none, store⟩

/-- Whether a result can be printed: JSON has no way to write a path that is no text. The other
formats print such a path as it is displayed. -/
def prints (store : FileStore) (format : Format) (result : LintResult) : Bool :=
  format ≠ .json || result.paths.all store.spells

/-- The report of a result, or the complaint that it cannot be printed, whatever was found. -/
def printed (analysis : Analysis) (format : Format) (result : LintResult) (store : FileStore) :
    Outcome :=
  if prints store format result then reported analysis format result store
  else .failed store .foreignPath

/-- Checks files, and fixes them if asked to. -/
def check (parsers : Parsers) (env : Environment) (store : FileStore) (named : Option Path)
    (path : Path) (format : Format) (exclude : List String) (fixes : Bool) : Outcome :=
  match (ConfigSource.resolve store env path named).load store env with
  | .error file => .failed store (.config file)
  | .ok config =>
    match config.banRule with
    | .error _ => .failed store .rules
    | .ok rule =>
      match Analysis.ofRequest env.cwdPath (requestOf parsers config rule path exclude fixes) with
      | .error _ => .failed store .patterns
      | .ok analysis =>
        let outcome := analysis.run store
        match outcome.result with
        | .error _ => .failed outcome.store .analysis
        | .ok result => printed analysis format result outcome.store

def listTypes (env : Environment) (store : FileStore) (named : Option Path) (path : Path) :
    Outcome :=
  match (ConfigSource.resolve store env path named).load store env with
  | .error file => .failed store (.config file)
  | .ok config =>
    match config.banOptions with
    | .error _ => .failed store .options
    | .ok options =>
      let note :=
        if config.isEnabled BanRule.name then ""
        else s!"Note: {BanRule.name} is disabled in the configuration\n\n"
      .done store (note ++ listing (.ofOptions options))

/-- Writes a configuration file to start from. One that is there is overwritten only by force. -/
def init (env : Environment) (store : FileStore) (force : Bool) : Outcome :=
  let path : Path := ⟨templateName⟩
  if store.has env.cwd path && !force then .failed store .alreadyThere
  else
    match store.write env.cwd path template with
    | .error fault => .failed store (.file fault)
    | .ok store => .done store templateNotice

/-! ## Command lines -/

def versionLine : String := "typeban 0.1.0\n"

/-- Runs a command line. One that cannot be read has the status 2. -/
def run (parsers : Parsers) (env : Environment) (store : FileStore) (arguments : List String) :
    Outcome :=
  match Invocation.parse arguments with
  | none => ⟨2, "", none, store⟩
  | some .help => .done store ""
  | some .version => .done store versionLine
  | some (.command (.check path format exclude fixes) named) =>
    check parsers env store named path format exclude fixes
  | some (.command (.listTypes path) named) => listTypes env store named path
  | some (.command (.init force) _) => init env store force

end CommandLine
end TypeNameLint
