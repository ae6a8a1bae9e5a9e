import TypeNameLint.Text.Hex

/-!
# Toml.Text — blanks, comments, strings and keys

A line ends at a line feed, perhaps with a carriage return before it; other control characters are
refused everywhere. This file defines:

- `skipBlanks`, `lineEnd?`, `skipLines?`: what stands between the parts of a document;
- `basicBody`, `longBasicBody`, `literalBody`, `longLiteralBody`: the four kinds of strings;
- `string?`: a string;
- `key?`, `keyPath?`: a key, and several keys with dots between them.
-/

namespace TypeNameLint
namespace Toml

/-! ## Between the parts -/

def isBlank (c : Char) : Bool :=
  c = ' ' || c = '\t'

/-- The text after leading blanks. -/
def skipBlanks (cs : List Char) : List Char :=
  cs.dropWhile isBlank

/-- Whether a character may stand in a comment, or in a string as itself. -/
def isPlain (c : Char) : Bool :=
  c = '\t' || (0x20 ≤ c.toNat && c.toNat ≠ 0x7F)

/-- The text after a line end, which is there or the text is over. -/
def newline? : List Char → Option (List Char)
  | [] => some []
  | '\n' :: rest => some rest
  | '\r' :: '\n' :: rest => some rest
  | _ => none

/-- The text after blanks, perhaps a comment, and the end of the line. -/
def lineEnd? (cs : List Char) : Option (List Char) :=
  match skipBlanks cs with
  | '#' :: rest => newline? (rest.dropWhile isPlain)
  | rest => newline? rest

/-- The text after blanks, comments and line ends, from inside a comment or not. -/
def skipLines? (inComment : Bool) : List Char → Option (List Char)
  | [] => if inComment then none else some []
  | '\n' :: rest => skipLines? false rest
  | '\r' :: '\n' :: rest => skipLines? false rest
  | c :: rest =>
    if inComment then
      if isPlain c then skipLines? true rest else none
    else if isBlank c then skipLines? false rest
    else if c = '#' then skipLines? true rest
    else some (c :: rest)

/-! ## Strings -/

def push (c : Char) (rest : Option (List Char × List Char)) : Option (List Char × List Char) :=
  rest.map fun (cs, rest) => (c :: cs, rest)

def ofCodePoint? (code : Nat) : Option Char :=
  if code.isValidChar then some (Char.ofNat code) else none

/-- The character that a letter after a backslash stands for. -/
def escaped? : Char → Option Char
  | '"' => some '"'
  | '\\' => some '\\'
  | 'b' => some '\x08'
  | 'f' => some '\x0c'
  | 'n' => some '\n'
  | 'r' => some '\r'
  | 't' => some '\t'
  | _ => none

/-- How many digits follow a letter after a backslash, if it announces a code point. -/
def codeWidth? : Char → Option Nat
  | 'u' => some 4
  | 'U' => some 8
  | _ => none

/-- Where in a string a reader is: between characters, in the white space after a backslash at the
end of a line, or in a code point of which `left` digits are missing. -/
inductive StringPlace where
  | between
  | folded
  | inCode (left code : Nat)
  deriving Repr

/-- The characters of a string in double quotes, and the text after its end. -/
def basicBody : StringPlace → List Char → Option (List Char × List Char)
  | _, [] => none
  | .inCode left code, c :: rest =>
    match Text.hexValue? c with
    | none => none
    | some digit =>
      let code := code * 16 + digit
      if left ≤ 1 then
        match ofCodePoint? code with
        | none => none
        | some c => push c (basicBody .between rest)
      else basicBody (.inCode (left - 1) code) rest
  | _, '"' :: rest => some ([], rest)
  | _, '\\' :: letter :: rest =>
    match codeWidth? letter with
    | some width => basicBody (.inCode width 0) rest
    | none =>
      match escaped? letter with
      | none => none
      | some c => push c (basicBody .between rest)
  | _, c :: rest => if isPlain c then push c (basicBody .between rest) else none

/-- Whether the line ends after blanks, as it may after a backslash. -/
def atLineEnd (cs : List Char) : Bool :=
  match skipBlanks cs with
  | '\n' :: _ => true
  | '\r' :: '\n' :: _ => true
  | _ => false

/-- The characters of a string over several lines in double quotes, and the text after its end. Up
to two quotes may stand just before the closing ones. -/
def longBasicBody : StringPlace → List Char → Option (List Char × List Char)
  | _, [] => none
  | .inCode left code, c :: rest =>
    match Text.hexValue? c with
    | none => none
    | some digit =>
      let code := code * 16 + digit
      if left ≤ 1 then
        match ofCodePoint? code with
        | none => none
        | some c => push c (longBasicBody .between rest)
      else longBasicBody (.inCode (left - 1) code) rest
  -- Quotes just before the closing ones belong to the string, so longer runs are tried first.
  | _, '"' :: '"' :: '"' :: '"' :: '"' :: rest => some (['"', '"'], rest)
  | _, '"' :: '"' :: '"' :: '"' :: rest => some (['"'], rest)
  | _, '"' :: '"' :: '"' :: rest => some ([], rest)
  | .folded, '\n' :: rest => longBasicBody .folded rest
  | .folded, '\r' :: '\n' :: rest => longBasicBody .folded rest
  | .between, '\n' :: rest => push '\n' (longBasicBody .between rest)
  | .between, '\r' :: '\n' :: rest => push '\n' (longBasicBody .between rest)
  | _, '\\' :: rest =>
    -- At the end of a line a backslash takes away all white space up to the next character.
    if atLineEnd rest then longBasicBody .folded rest
    else
      match rest with
      | [] => none
      | letter :: rest =>
        match codeWidth? letter with
        | some width => longBasicBody (.inCode width 0) rest
        | none =>
          match escaped? letter with
          | none => none
          | some c => push c (longBasicBody .between rest)
  | .folded, c :: rest =>
    if isBlank c then longBasicBody .folded rest
    else if isPlain c then push c (longBasicBody .between rest)
    else none
  | .between, c :: rest => if isPlain c then push c (longBasicBody .between rest) else none

/-- The characters of a string in single quotes, and the text after its end. -/
def literalBody : List Char → Option (List Char × List Char)
  | [] => none
  | '\'' :: rest => some ([], rest)
  | c :: rest => if isPlain c then push c (literalBody rest) else none

/-- The characters of a string over several lines in single quotes, and the text after its end. -/
def longLiteralBody : List Char → Option (List Char × List Char)
  | [] => none
  | '\'' :: '\'' :: '\'' :: '\'' :: '\'' :: rest => some (['\'', '\''], rest)
  | '\'' :: '\'' :: '\'' :: '\'' :: rest => some (['\''], rest)
  | '\'' :: '\'' :: '\'' :: rest => some ([], rest)
  | '\n' :: rest => push '\n' (longLiteralBody rest)
  | '\r' :: '\n' :: rest => push '\n' (longLiteralBody rest)
  | c :: rest => if isPlain c then push c (longLiteralBody rest) else none

/-- The text without a line end at its start. -/
def dropNewline : List Char → List Char
  | '\n' :: rest => rest
  | '\r' :: '\n' :: rest => rest
  | cs => cs

/-- A string on one line, and the text after it. -/
def shortString? : List Char → Option (List Char × List Char)
  | '"' :: rest => basicBody .between rest
  | '\'' :: rest => literalBody rest
  | _ => none

/-- A string of any kind, and the text after it. -/
def string? : List Char → Option (List Char × List Char)
  | '"' :: '"' :: '"' :: rest => longBasicBody .between (dropNewline rest)
  | '\'' :: '\'' :: '\'' :: rest => longLiteralBody (dropNewline rest)
  | cs => shortString? cs

/-! ## Keys -/

/-- Whether a character may stand in a key without quotes. -/
def isBare (c : Char) : Bool :=
  c.isAlphanum || c = '-' || c = '_'

/-- A key, and the text after it. -/
def key? (cs : List Char) : Option (String × List Char) :=
  match cs with
  | '"' :: _ => (shortString? cs).map fun (key, rest) => (String.ofList key, rest)
  | '\'' :: _ => (shortString? cs).map fun (key, rest) => (String.ofList key, rest)
  | _ =>
    let key := cs.takeWhile isBare
    if key.isEmpty then none else some (String.ofList key, cs.dropWhile isBare)

def maxKeys : Nat := 79

/-- At least one and at most `most` keys with dots between them, and the text after the blanks that
follow. -/
def keyPath? (most : Nat) (cs : List Char) : Option (List String × List Char) :=
  match most with
  | 0 => none
  | most + 1 =>
    match key? (skipBlanks cs) with
    | none => none
    | some (key, rest) =>
      match skipBlanks rest with
      | '.' :: rest => (keyPath? most rest).map fun (keys, rest) => (key :: keys, rest)
      | rest => some ([key], rest)

end Toml
end TypeNameLint
