/-!
# CommandLine.Template — a configuration file to start from

- `templateName`: the name of the file;
- `template`: its text;
- `templateNotice`: what is printed when it has been written.
-/

namespace TypeNameLint
namespace CommandLine

def templateName : String := "typeban.toml"

def templateLines : List String :=
  ["# typeban configuration",
   "",
   "[analyzer]",
   "# Root directory to analyze (default: current directory)",
   "# root = \"./src\"",
   "",
   "# Glob patterns to exclude from analysis",
   "exclude = [",
   "    \"**/node_modules/**\",",
   "    \"**/dist/**\",",
   "    \"**/*.d.ts\",",
   "]",
   "",
   "# Respect .gitignore files",
   "respect_gitignore = true",
   "",
   "[rules.ban-types]",
   "enabled = true",
   "# severity = \"warning\"  # Override default severity",
   "",
   "# Start from the built-in list (String, Boolean, Number, Symbol,",
   "# Function, Object, \x7b\x7d). Set to false to ban only the types below.",
   "extend_defaults = true",
   "",
   "# Each entry is one of:",
   "#   true                                  banned, default message",
   "#   false                                 not banned (removes a default)",
   "#   \"message\"                             banned with a message",
   "#   \x7b message = \"...\", fixWith = \"...\" \x7d  banned, fixable with `check --fix`",
   "[rules.ban-types.types]",
   "# Object = \"Prefer Record<string, unknown>\"",
   "# \"Array<any>\" = \x7b message = \"Prefer unknown[]\", fixWith = \"unknown[]\" \x7d"]

def template : String :=
  String.join (templateLines.map fun line => line ++ "\n")

/-- What is printed when the file has been written. -/
def templateNotice : String :=
  s!"Created {templateName}\n\nNext steps:\n" ++
    s!"  1. Edit {templateName} to configure banned types\n  2. Run: typeban check\n"

end CommandLine
end TypeNameLint
