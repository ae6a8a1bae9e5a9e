import TypeNameLint.Data.Value
import TypeNameLint.Decimal.Layout
import TypeNameLint.Text.Hex

/-!
# Json.Printer — writing JSON text

Lists and tables are written over several lines with two spaces for each level, empty ones as a
pair of brackets. This file defines:

- `escape`, `string`: the written form of a text;
- `print`: the written form of a value at a level;
- `write`: the text of a value.
-/

namespace TypeNameLint
namespace Json

/-! ## Strings -/

def fourDigits (n : Nat) : List Char :=
  let digits := Text.hexDigits n
  List.replicate (4 - digits.length) '0' ++ digits

/-- What a character is written as in a string. -/
def escape (c : Char) : List Char :=
  match c with
  | '"' => ['\\', '"']
  | '\\' => ['\\', '\\']
  | '\x08' => ['\\', 'b']
  | '\x0c' => ['\\', 'f']
  | '\n' => ['\\', 'n']
  | '\r' => ['\\', 'r']
  | '\t' => ['\\', 't']
  | c => if c.toNat < 0x20 then '\\' :: 'u' :: fourDigits c.toNat else [c]

def string (s : String) : List Char :=
  '"' :: s.toList.flatMap escape ++ ['"']

/-! ## Values -/

def newline (level : Nat) : List Char :=
  '\n' :: List.replicate (2 * level) ' '

/-- A number without a fraction. -/
def integer (n : Int) : List Char :=
  match n with
  | .ofNat n => Nat.toDigits 10 n
  | .negSucc n => '-' :: Nat.toDigits 10 (n + 1)

mutual

def print (level : Nat) : Value → List Char
  | .null => "null".toList
  | .boolean true => "true".toList
  | .boolean false => "false".toList
  | .integer n => integer n
  | .float x => (reportNumbers.render x).toList
  | .text s => string s
  | .date s => string s
  | .list [] => ['[', ']']
  | .list (first :: items) =>
    '[' :: newline (level + 1) ++ print (level + 1) first ++ printItems level items
  | .table [] => ['{', '}']
  | .table ((key, first) :: entries) =>
    '{' :: newline (level + 1) ++ string key ++ [':', ' '] ++ print (level + 1) first ++
      printEntries level entries

def printItems (level : Nat) : List Value → List Char
  | [] => newline level ++ [']']
  | item :: items =>
    ',' :: newline (level + 1) ++ print (level + 1) item ++ printItems level items

def printEntries (level : Nat) : List (String × Value) → List Char
  | [] => newline level ++ ['}']
  | (key, value) :: entries =>
    ',' :: newline (level + 1) ++ string key ++ [':', ' '] ++ print (level + 1) value ++
      printEntries level entries

end

def write (value : Value) : String :=
  String.ofList (print 0 value)

end Json
end TypeNameLint
