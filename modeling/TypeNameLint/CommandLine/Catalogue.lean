import TypeNameLint.CommandLine.Session
import TypeNameLint.Json.Reader

/-!
# CommandLine.Catalogue — parsed texts from a file

Trees come from outside, in a catalogue: a JSON list of records with the fields `lang`, `source` and
`tree`. A tree is the list of its named nodes in document order, each of them the list of its depth,
its kind, its field or null, and the ends of its span. This file defines:

- `Parsed`, `Catalogue`: a text with its tree, and several of them;
- `Catalogue.read?`: the catalogue that a text spells;
- `Catalogue.parsers`: look-up as a parser.
-/

namespace TypeNameLint
namespace CommandLine

/-- A text in a language, with its tree. -/
structure Parsed where
  language : String
  source : String
  tree : Tree
  deriving Repr

/-- Texts with their trees. -/
abbrev Catalogue := List Parsed

namespace Catalogue

/-! ## Reading -/

def nat? : Value → Option Nat
  | .integer n => n.toNat?
  | _ => none

def row? : Value → Option Tree.Row
  | .list [depth, .text kind, .null, start, stop] => do
    return ⟨← nat? depth, ⟨kind, none, ← nat? start, ← nat? stop⟩⟩
  | .list [depth, .text kind, .text field, start, stop] => do
    return ⟨← nat? depth, ⟨kind, some field, ← nat? start, ← nat? stop⟩⟩
  | _ => none

def tree? : Value → Option Tree
  | .list rows => do Tree.ofRows? (← rows.mapM row?)
  | _ => none

def parsed? : Value → Option Parsed
  | .table entries =>
    match entries.lookup "lang", entries.lookup "source", entries.lookup "tree" with
    | some (.text language), some (.text source), some tree =>
      (tree? tree).map fun tree => ⟨language, source, tree⟩
    | _, _, _ => none
  | _ => none

def read? (text : String) : Option Catalogue :=
  match Json.read? text with
  | some (.list records) => records.mapM parsed?
  | _ => none

/-! ## Looking up -/

def find? (catalogue : Catalogue) (language source : String) : Option Tree :=
  (List.find? (fun parsed => parsed.language = language && parsed.source = source) catalogue).map
    Parsed.tree

def parsers (catalogue : Catalogue) : Parsers where
  typeScript := catalogue.find? "typescript"
  typeScriptJsx := catalogue.find? "tsx"

end Catalogue
end CommandLine
end TypeNameLint
