import TypeNameLint.Toml.Moment
import TypeNameLint.Toml.Table

/-!
# Toml.Document — reading a document

A document is a sequence of lines: pairs of a key and a value, headers, comments and blank lines.
This file defines:

- `value`, `items`, `pairs`: values by their grammar;
- `Statement`, `statement?`, `statements`: what the lines say;
- `read?`: the table that a whole document spells.
-/

namespace TypeNameLint
namespace Toml

/-! ## Values -/

/-- The number of lists and inline tables that can enclose a value. -/
def maxDepth : Nat := 79

/-- A string, a truth value, a moment or a number, and the text after it. -/
def scalar? : List Char → Option (Value × List Char)
  | 't' :: 'r' :: 'u' :: 'e' :: rest => some (.boolean true, rest)
  | 'f' :: 'a' :: 'l' :: 's' :: 'e' :: rest => some (.boolean false, rest)
  | '"' :: rest => (string? ('"' :: rest)).map fun (s, rest) => (.text (String.ofList s), rest)
  | '\'' :: rest => (string? ('\'' :: rest)).map fun (s, rest) => (.text (String.ofList s), rest)
  | cs =>
    -- A number can start with digits too, but has no dash or colon right behind them.
    if startsMoment cs then (moment? cs).map fun (moment, rest) => (.date moment.text, rest)
    else number? cs

def Pair.ofKeys? (keys : List String) (value : Value) : Option Pair :=
  keys.getLast?.map fun key => ⟨keys.dropLast, key, value⟩

mutual

/-- The value at the start of a text, and the text after it. Neither the steps nor the depth may run
out. -/
def value (fuel depth : Nat) (cs : List Char) : Option (Value × List Char) :=
  match fuel with
  | 0 => none
  | fuel + 1 =>
    match cs with
    | '[' :: rest =>
      match depth with
      | 0 => none
      | depth + 1 => (items fuel depth rest).map fun (values, rest) => (.list values, rest)
    | '{' :: rest =>
      match depth with
      | 0 => none
      | depth + 1 => do
        let (pairs, rest) ←
          match skipBlanks rest with
          | '}' :: rest => some ([], rest)
          | rest => pairs fuel depth rest
        let nodes ← Nodes.ofPairs pairs
        return (.table (entriesOf nodes), rest)
    | cs => scalar? cs

/-- The items up to the end of a list. A comma may follow the last one. -/
def items (fuel depth : Nat) (cs : List Char) : Option (List Value × List Char) :=
  match fuel with
  | 0 => none
  | fuel + 1 =>
    match skipLines? false cs with
    | none => none
    | some (']' :: rest) => some ([], rest)
    | some cs =>
      match value fuel depth cs with
      | none => none
      | some (first, rest) =>
        match skipLines? false rest with
        | some (',' :: rest) =>
          (items fuel depth rest).map fun (values, rest) => (first :: values, rest)
        | some (']' :: rest) => some ([first], rest)
        | _ => none

/-- The pairs up to the end of an inline table, of which there is at least one. -/
def pairs (fuel depth : Nat) (cs : List Char) : Option (List Pair × List Char) :=
  match fuel with
  | 0 => none
  | fuel + 1 =>
    match keyPath? maxKeys cs with
    | some (keys, '=' :: rest) =>
      match value fuel depth (skipBlanks rest) with
      | none => none
      | some (first, rest) =>
        match Pair.ofKeys? keys first with
        | none => none
        | some pair =>
          match skipBlanks rest with
          | ',' :: rest => (pairs fuel depth rest).map fun (others, rest) => (pair :: others, rest)
          | '}' :: rest => some ([pair], rest)
          | _ => none
    | _ => none

end

/-- The value at the start of a text, and the text after it. Each step consumes a character or
descends to one that will, so twice the length of the text bounds their number. -/
def value? (cs : List Char) : Option (Value × List Char) :=
  value (2 * cs.length + 2) maxDepth cs

/-! ## Lines -/

/-- What a line says. -/
inductive Statement where
  | nothing
  | pair (pair : Pair)
  | header (header : Header)
  deriving Repr

def Header.ofKeys? (isElement : Bool) (keys : List String) : Option Header :=
  keys.getLast?.map fun key => ⟨keys.dropLast, key, isElement⟩

/-- What the line at the start of a text says, and the text after the line. -/
def statement? (cs : List Char) : Option (Statement × List Char) :=
  match skipBlanks cs with
  | '[' :: '[' :: rest => do
    let (keys, rest) ← keyPath? maxKeys rest
    let rest ← expect? ']' (← expect? ']' rest)
    let header ← Header.ofKeys? true keys
    return (.header header, ← lineEnd? rest)
  | '[' :: rest => do
    let (keys, rest) ← keyPath? maxKeys rest
    let rest ← expect? ']' rest
    let header ← Header.ofKeys? false keys
    return (.header header, ← lineEnd? rest)
  | rest =>
    -- What is no header is a line without content, or else a pair.
    match lineEnd? rest with
    | some rest => some (.nothing, rest)
    | none => do
      let (keys, rest) ← keyPath? maxKeys rest
      let (value, rest) ← value? (skipBlanks (← expect? '=' rest))
      let pair ← Pair.ofKeys? keys value
      return (.pair pair, ← lineEnd? rest)

/-- What all lines say. Every line consumes a character, so the length of the text bounds their
number. -/
def statements : Nat → List Char → Option (List Statement)
  | _, [] => some []
  | 0, _ :: _ => none
  | fuel + 1, cs => do
    let (statement, rest) ← statement? cs
    let others ← statements fuel rest
    return statement :: others

/-! ## Documents -/

/-- The pairs before the first header and the sections, of which the given ones follow a line. -/
def addStatement (statement : Statement) (parts : List Pair × List Section) :
    List Pair × List Section :=
  match statement with
  | .nothing => parts
  | .pair pair => (pair :: parts.1, parts.2)
  | .header header => ([], ⟨header, parts.1⟩ :: parts.2)

/-- The entries of the table that a whole document spells. A byte order mark may come first. -/
def read? (text : String) : Option (List (String × Value)) := do
  let cs := match text.toList with
    | '\uFEFF' :: cs => cs
    | cs => cs
  let lines ← statements cs.length cs
  let (pairs, sections) := lines.foldr addStatement ([], [])
  let root ← Nodes.ofPairs pairs
  let nodes ← sections.foldlM Nodes.addSection root
  return entriesOf nodes

end Toml
end TypeNameLint
