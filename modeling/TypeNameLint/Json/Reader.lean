import TypeNameLint.Data.Value
import TypeNameLint.Text.Hex

/-!
# Json.Reader — reading JSON text

The reader follows RFC 8259 with a bound on the depth of nesting. Integers that fit 64 bits, signed
or unsigned, are kept exactly; all other numbers become floating point, and a number too large for
that is refused. This file defines:

- `stringBody`: the characters of a string;
- `NumberText`, `NumberText.split?`, `NumberText.value?`: the parts of a number, and its value;
- `value`, `items`, `members`: values by their grammar;
- `read?`: the value that a whole text spells.
-/

namespace TypeNameLint
namespace Json

/-! ## White space -/

def isSpace (c : Char) : Bool :=
  c = ' ' || c = '\n' || c = '\t' || c = '\r'

/-- The text after leading white space. -/
def skipSpace (cs : List Char) : List Char :=
  cs.dropWhile isSpace

/-! ## Strings -/

def unitValue? (a b c d : Char) : Option Nat := do
  let a ← Text.hexValue? a
  let b ← Text.hexValue? b
  let c ← Text.hexValue? c
  let d ← Text.hexValue? d
  return ((a * 16 + b) * 16 + c) * 16 + d

/-- The character that a letter after a backslash stands for. -/
def escaped? : Char → Option Char
  | '"' => some '"'
  | '\\' => some '\\'
  | '/' => some '/'
  | 'b' => some '\x08'
  | 'f' => some '\x0c'
  | 'n' => some '\n'
  | 'r' => some '\r'
  | 't' => some '\t'
  | _ => none

/-- The character of a code unit, or of a pair of code units for the planes above. -/
def unitChar? (unit : Nat) (second : Option Nat) : Option Char :=
  match second with
  | none => if 0xD800 ≤ unit ∧ unit < 0xE000 then none else some (Char.ofNat unit)
  | some low =>
    if 0xD800 ≤ unit ∧ unit < 0xDC00 ∧ 0xDC00 ≤ low ∧ low < 0xE000 then
      some (Char.ofNat (0x10000 + (unit - 0xD800) * 0x400 + (low - 0xDC00)))
    else none

def push (c : Option Char) (rest : Option (List Char × List Char)) :
    Option (List Char × List Char) := do
  let c ← c
  let (cs, rest) ← rest
  return (c :: cs, rest)

/-- The characters of a string after its opening quote, and the text after its closing quote. -/
def stringBody : List Char → Option (List Char × List Char)
  | [] => none
  | '"' :: rest => some ([], rest)
  | '\\' :: 'u' :: a :: b :: c :: d :: rest =>
    match unitValue? a b c d with
    | none => none
    | some unit =>
      if 0xD800 ≤ unit ∧ unit < 0xDC00 then
        -- The first half of a pair. The other half has to follow at once.
        match rest with
        | '\\' :: 'u' :: e :: f :: g :: h :: rest =>
          match unitValue? e f g h with
          | none => none
          | some low => push (unitChar? unit (some low)) (stringBody rest)
        | _ => none
      else push (unitChar? unit none) (stringBody rest)
  | '\\' :: letter :: rest => push (escaped? letter) (stringBody rest)
  | c :: rest => if c.toNat < 0x20 then none else push (some c) (stringBody rest)

/-! ## Numbers -/

/-- The parts of a number: the digits before and after the point, and the exponent. -/
structure NumberText where
  negative : Bool
  whole : List Char
  fraction : List Char
  exponent : Option (Bool × List Char)
  deriving Repr

def spanDigits (cs : List Char) : List Char × List Char :=
  (cs.takeWhile Char.isDigit, cs.dropWhile Char.isDigit)

/-- The digits after a point, if there is a point. -/
def fraction? : List Char → Option (List Char × List Char)
  | '.' :: cs =>
    match spanDigits cs with
    | ([], _) => none
    | (digits, rest) => some (digits, rest)
  | cs => some ([], cs)

def exponentDigits? (negative : Bool) (cs : List Char) :
    Option (Option (Bool × List Char) × List Char) :=
  match spanDigits cs with
  | ([], _) => none
  | (digits, rest) => some (some (negative, digits), rest)

/-- The exponent, if there is one. -/
def exponent? : List Char → Option (Option (Bool × List Char) × List Char)
  | c :: cs =>
    if c = 'e' ∨ c = 'E' then
      match cs with
      | '-' :: cs => exponentDigits? true cs
      | '+' :: cs => exponentDigits? false cs
      | cs => exponentDigits? false cs
    else some (none, c :: cs)
  | [] => some (none, [])

def digitsValue (start : Nat) (digits : List Char) : Nat :=
  digits.foldl (fun n c => n * 10 + (c.toNat - '0'.toNat)) start

namespace NumberText

/-- The parts of the number at the start of a text, and what follows it. The digits before the
point have no leading zero. -/
def split? (cs : List Char) : Option (NumberText × List Char) := do
  let (negative, cs) := match cs with
    | '-' :: cs => (true, cs)
    | cs => (false, cs)
  let (whole, cs) := spanDigits cs
  if whole.isEmpty || (whole.head? = some '0' && whole.length > 1) then none
  else
    let (fraction, cs) ← fraction? cs
    let (exponent, cs) ← exponent? cs
    return (⟨negative, whole, fraction, exponent⟩, cs)

/-! ### Floating point -/

def maxSignificand : Nat := 0xFFFFFFFFFFFFFFFF

/-- The significand after as many further digits as it can take, and the digits left over. -/
def gather (significand : Nat) : List Char → Nat × List Char
  | [] => (significand, [])
  | c :: cs =>
    let next := digitsValue significand [c]
    if next ≤ maxSignificand then gather next cs else (significand, c :: cs)

def power (exponent : Nat) : Float :=
  Float.ofScientific 1 false exponent

/-- The product of a significand and a power of ten, in at most three rounded steps. -/
def scale? (significand : Nat) (exponent : Int) : Option Float :=
  let x := Float.ofNat significand
  let steps := exponent.natAbs
  if significand = 0 then some 0.0
  else if exponent ≥ 0 then
    if steps ≤ 308 then
      let y := x * power steps
      if y.isInf then none else some y
    else none
  else if steps ≤ 308 then some (x / power steps)
  -- A power out of range is divided by in two steps.
  else if steps ≤ 616 then some (x / power 308 / power (steps - 308))
  else some 0.0

def maxExponent : Nat := 0x7FFFFFFF

/-- The magnitude as a floating-point number. Digits that do not fit the significand count only by
their places. -/
def magnitude? (n : NumberText) : Option Float :=
  let (first, dropped) := gather 0 n.whole
  let (significand, rest) := gather first n.fraction
  let places := (dropped.length : Int) - (n.fraction.length - rest.length : Nat)
  match n.exponent with
  | none => scale? significand places
  | some (negative, digits) =>
    let exponent := digitsValue 0 digits
    if exponent > maxExponent then
      -- Such an exponent alone decides between zero and a number out of range.
      if significand ≠ 0 ∧ !negative then none else some 0.0
    else scale? significand (if negative then places - exponent else places + exponent)

def value? (n : NumberText) : Option Value :=
  let whole := digitsValue 0 n.whole
  if n.fraction.isEmpty && n.exponent.isNone && !n.negative && whole ≤ maxSignificand then
    some (.integer whole)
  -- A zero with a sign is no integer, as that would lose the sign.
  else if n.fraction.isEmpty && n.exponent.isNone && n.negative && 0 < whole
      && whole ≤ 0x8000000000000000 then
    some (.integer (-whole))
  else n.magnitude?.map fun x => .float (if n.negative then -x else x)

end NumberText

/-! ## Values -/

def maxDepth : Nat := 127

mutual

/-- The value at the start of a text, and what follows it. Neither the steps nor the depth may run
out. -/
def value (fuel depth : Nat) (cs : List Char) : Option (Value × List Char) :=
  match fuel with
  | 0 => none
  | fuel + 1 =>
    match skipSpace cs with
    | 'n' :: 'u' :: 'l' :: 'l' :: rest => some (.null, rest)
    | 't' :: 'r' :: 'u' :: 'e' :: rest => some (.boolean true, rest)
    | 'f' :: 'a' :: 'l' :: 's' :: 'e' :: rest => some (.boolean false, rest)
    | '"' :: rest => (stringBody rest).map fun (s, rest) => (.text (String.ofList s), rest)
    | '[' :: rest =>
      match depth with
      | 0 => none
      | depth + 1 =>
        match skipSpace rest with
        | ']' :: rest => some (.list [], rest)
        | rest => (items fuel depth rest).map fun (values, rest) => (.list values, rest)
    | '{' :: rest =>
      match depth with
      | 0 => none
      | depth + 1 =>
        match skipSpace rest with
        | '}' :: rest => some (.table [], rest)
        | rest => (members fuel depth rest).map fun (entries, rest) => (.table entries, rest)
    | cs => do
      let (number, rest) ← NumberText.split? cs
      let value ← number.value?
      return (value, rest)

/-- The items up to the end of a list, of which there is at least one. -/
def items (fuel depth : Nat) (cs : List Char) : Option (List Value × List Char) :=
  match fuel with
  | 0 => none
  | fuel + 1 =>
    match value fuel depth cs with
    | none => none
    | some (first, rest) =>
      match skipSpace rest with
      | ',' :: rest => (items fuel depth rest).map fun (values, rest) => (first :: values, rest)
      | ']' :: rest => some ([first], rest)
      | _ => none

/-- The entries up to the end of a table, of which there is at least one. -/
def members (fuel depth : Nat) (cs : List Char) : Option (List (String × Value) × List Char) :=
  match fuel with
  | 0 => none
  | fuel + 1 =>
    match skipSpace cs with
    | '"' :: rest =>
      match stringBody rest with
      | none => none
      | some (key, rest) =>
        match skipSpace rest with
        | ':' :: rest =>
          match value fuel depth rest with
          | none => none
          | some (first, rest) =>
            let entry := (String.ofList key, first)
            match skipSpace rest with
            | ',' :: rest =>
              (members fuel depth rest).map fun (entries, rest) => (entry :: entries, rest)
            | '}' :: rest => some ([entry], rest)
            | _ => none
        | _ => none
    | _ => none

end

/-- The value that a whole text spells. Each step consumes a character or descends to one that
will, so twice the length of the text bounds their number. -/
def read? (text : String) : Option Value :=
  let cs := text.toList
  match value (2 * cs.length + 2) maxDepth cs with
  | none => none
  | some (value, rest) => if (skipSpace rest).isEmpty then some value else none

end Json
end TypeNameLint
