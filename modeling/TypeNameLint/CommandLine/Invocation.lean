import TypeNameLint.CommandLine.Arguments
import TypeNameLint.Path

/-!
# CommandLine.Invocation — the commands

- `Format`: how a report is printed;
- `Command`: what is to be done;
- `Invocation`, `Invocation.parse`: a command together with the configuration file that is to be
  used for it;
- `Invocation.target?`, `Invocation.named?`: the paths that an invocation is about.
-/

namespace TypeNameLint
namespace CommandLine

/-- How a report is printed. -/
inductive Format where
  | text
  | pretty
  | json
  | compact
  deriving DecidableEq, Repr

namespace Format

def ofName? : String → Option Format
  | "text" => some text
  | "pretty" => some pretty
  | "json" => some json
  | "compact" => some compact
  | _ => none

end Format

/-- What is to be done: check files and perhaps fix them, list the banned names, or write a
configuration file to start from. -/
inductive Command where
  | check (path : Path) (format : Format) (exclude : List String) (fixes : Bool)
  | listTypes (path : Path)
  | init (force : Bool)
  deriving DecidableEq, Repr

/-- A command and the configuration file named for it, or a request for help or the version. -/
inductive Invocation where
  | command (command : Command) (config : Option Path)
  | help
  | version
  deriving DecidableEq, Repr

namespace Invocation

/-! ## Options -/

def commonShapes : List OptionShape :=
  [⟨"verbose", some 'v', .flag⟩, ⟨"config", some 'c', .value⟩, ⟨"help", some 'h', .final⟩]

/-- The options before the name of a command. -/
def outerShapes : List OptionShape :=
  ⟨"version", some 'V', .final⟩ :: commonShapes

def checkShapes : List OptionShape :=
  [⟨"format", some 'f', .value⟩, ⟨"exclude", some 'e', .values⟩, ⟨"fix", none, .flag⟩] ++
    commonShapes

def initShapes : List OptionShape :=
  ⟨"force", none, .flag⟩ :: commonShapes

/-- The path of a text, which must not be empty. -/
def path? (text : String) : Option Path :=
  if text.isEmpty then none else some ⟨text⟩

/-- The configuration file, and that no common option is given more than once. -/
def config? (items : List Item) : Option (Option Path) := do
  let _ ← flag? items "verbose"
  match ← value? items "config" with
  | none => return none
  | some text => return some (← path? text)

def onlyPath? (items : List Item) : Option Path :=
  match wordsOf items with
  | [] => some ⟨"."⟩
  | [text] => path? text
  | _ => none

/-! ## Commands -/

def check? (items : List Item) : Option Command := do
  let path ← onlyPath? items
  let format ←
    match ← value? items "format" with
    | none => some Format.text
    | some name => Format.ofName? name
  let fixes ← flag? items "fix"
  return .check path format (valuesOf items "exclude") fixes

def listTypes? (items : List Item) : Option Command :=
  (onlyPath? items).map .listTypes

def init? (items : List Item) : Option Command :=
  if (wordsOf items).isEmpty then (flag? items "force").map .init else none

/-- The invocation of a command with its options. Of two configuration files the one named after
the command counts. -/
def ofCommand (outer : Option Path) (shapes : List OptionShape)
    (command? : List Item → Option Command) (arguments : List String) : Option Invocation := do
  let items ← items shapes none false arguments
  -- Help is given whatever the values of the other options are.
  if items.contains (.flag "help") then return .help
  else
    let config ← config? items
    let command ← command? items
    return .command command (config <|> outer)

def helpOn? : List String → Option Invocation
  | [] => some .help
  | [name] => if ["check", "list-types", "init", "help"].contains name then some .help else none
  | _ => none

def ofName? (outer : Option Path) (name : String) (arguments : List String) : Option Invocation :=
  match name with
  | "check" => ofCommand outer checkShapes check? arguments
  | "list-types" => ofCommand outer commonShapes listTypes? arguments
  | "init" => ofCommand outer initShapes init? arguments
  | "help" => helpOn? arguments
  | _ => none

def parse (arguments : List String) : Option Invocation := do
  let (items, next) ← leadingItems outerShapes none arguments
  if items.contains (.flag "help") then return .help
  else if items.contains (.flag "version") then return .version
  else
    let outer ← config? items
    let (name, rest) ← next
    ofName? outer name rest

/-! ## What an invocation is about -/

def target? : Invocation → Option Path
  | command (.check path _ _ _) _ => some path
  | command (.listTypes path) _ => some path
  | command (.init _) _ => none
  | _ => none

def named? : Invocation → Option Path
  | command _ config => config
  | _ => none

end Invocation
end CommandLine
end TypeNameLint
