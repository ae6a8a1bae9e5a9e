import TypeNameLint.Text.Search

/-!
# CommandLine.Arguments — options and words

An argument is an option, or several of them behind one dash, or a word. The value of an option
follows in the same argument or in the next one; after `--` everything is a word. This file defines:

- `OptionKind`, `OptionShape`: which options there are;
- `Item`: what arguments say;
- `Piece`, `pieceOf`: one argument by itself;
- `isFinal`: whether nothing is read after some items;
- `items`: all arguments;
- `leadingItems`: the options before the first word.
-/

namespace TypeNameLint
namespace CommandLine

/-! ## Options -/

/-- Whether an option has a value, and whether it may be given again. -/
inductive OptionKind where
  | flag
  /-- A flag after which nothing is read. -/
  | final
  | value
  | values
  deriving DecidableEq, Repr

def OptionKind.hasValue : OptionKind → Bool
  | flag => false
  | final => false
  | value => true
  | values => true

/-- An option: its name, its letter, and its kind. -/
structure OptionShape where
  name : String
  letter : Option Char
  kind : OptionKind
  deriving DecidableEq, Repr

/-- What arguments say: an option that is set, an option with a value, or a word. -/
inductive Item where
  | flag (name : String)
  | value (name text : String)
  | word (text : String)
  deriving DecidableEq, Repr

/-! ## One argument -/

/-- An argument by itself: the mark after which there are only words, a word, or options, the last
of which may wait for its value. -/
inductive Piece where
  | endOfOptions
  | word (text : String)
  | options (items : List Item) (waiting : Option String)
  deriving DecidableEq, Repr

def letters (shapes : List OptionShape) : List Char → Option (List Item × Option String)
  | [] => some ([], none)
  | c :: rest =>
    match shapes.find? fun shape => shape.letter = some c with
    | none => none
    | some shape =>
      match shape.kind with
      -- The letters behind a final flag are not looked at.
      | .final => some ([.flag shape.name], none)
      | .flag =>
        (letters shapes rest).map fun (items, waiting) => (.flag shape.name :: items, waiting)
      | _ =>
        match rest with
        | [] => some ([], some shape.name)
        | '=' :: text => some ([.value shape.name (String.ofList text)], none)
        | text => some ([.value shape.name (String.ofList text)], none)

def longOption (shapes : List OptionShape) (cs : List Char) : Option (List Item × Option String) :=
  let (name, text) : List Char × Option String :=
    match Text.splitOnce? ['='] cs with
    | some (name, text) => (name, some (String.ofList text))
    | none => (cs, none)
  match shapes.find? fun shape => shape.name = String.ofList name with
  | none => none
  | some shape =>
    match shape.kind.hasValue, text with
    | false, none => some ([.flag shape.name], none)
    | false, some _ => none
    | true, some text => some ([.value shape.name text], none)
    | true, none => some ([], some shape.name)

/-- An argument by itself, unless it holds an unknown option or a value for a flag. -/
def pieceOf (shapes : List OptionShape) (argument : String) : Option Piece :=
  match argument.toList with
  | ['-', '-'] => some .endOfOptions
  | '-' :: '-' :: rest =>
    (longOption shapes rest).map fun (items, waiting) => .options items waiting
  | '-' :: c :: rest =>
    (letters shapes (c :: rest)).map fun (items, waiting) => .options items waiting
  | _ => some (.word argument)

/-- Whether an argument cannot be the value of the option before it. -/
def startsOption (argument : String) : Bool :=
  match argument.toList with
  | '-' :: _ :: _ => true
  | _ => false

/-- Whether there is a flag among the items after which nothing is read. -/
def isFinal (shapes : List OptionShape) (items : List Item) : Bool :=
  shapes.any fun shape => shape.kind = .final && items.contains (.flag shape.name)

/-! ## All arguments -/

/-- What all arguments say. One option may wait for its value; after the end of options there are
only words. -/
def items (shapes : List OptionShape) (waiting : Option String) (onlyWords : Bool) :
    List String → Option (List Item)
  | [] => if waiting.isSome then none else some []
  | argument :: rest =>
    match waiting with
    | some name =>
      -- Not even the mark for the end of options is taken for a value.
      if startsOption argument then none
      else (items shapes none onlyWords rest).map fun later => .value name argument :: later
    | none =>
      if onlyWords then (items shapes none true rest).map fun later => .word argument :: later
      else
        match pieceOf shapes argument with
        | none => none
        | some .endOfOptions => items shapes none true rest
        | some (.word text) =>
          (items shapes none false rest).map fun later => .word text :: later
        | some (.options found waiting) =>
          if isFinal shapes found then some found
          else (items shapes waiting false rest).map fun later => found ++ later

/-- The options before the first word, and that word with the arguments after it, if they are
read. -/
def leadingItems (shapes : List OptionShape) (waiting : Option String) :
    List String → Option (List Item × Option (String × List String))
  | [] => none
  | argument :: rest =>
    match waiting with
    | some name =>
      if startsOption argument then none
      else
        (leadingItems shapes none rest).map fun (later, next) =>
          (.value name argument :: later, next)
    | none =>
      match pieceOf shapes argument with
      | none => none
      | some .endOfOptions => none
      | some (.word text) => some ([], some (text, rest))
      | some (.options found waiting) =>
        if isFinal shapes found then some (found, none)
        else
          (leadingItems shapes waiting rest).map fun (later, next) => (found ++ later, next)

/-! ## Looking up -/

/-- Whether a flag is set, unless it is given more than once. -/
def flag? (items : List Item) (name : String) : Option Bool :=
  match items.count (.flag name) with
  | 0 => some false
  | 1 => some true
  | _ => none

def valuesOf (items : List Item) (name : String) : List String :=
  items.filterMap fun item =>
    match item with
    | .value other text => if other = name then some text else none
    | _ => none

/-- The value of an option, unless it is given more than once. -/
def value? (items : List Item) (name : String) : Option (Option String) :=
  match valuesOf items name with
  | [] => some none
  | [text] => some (some text)
  | _ => none

def wordsOf (items : List Item) : List String :=
  items.filterMap fun item =>
    match item with
    | .word text => some text
    | _ => none

end CommandLine
end TypeNameLint
