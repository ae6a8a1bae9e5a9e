import TypeNameLint.Data.Value
import TypeNameLint.Decimal.Shortest
import TypeNameLint.Toml.Text

/-!
# Toml.Number — integers and floating-point numbers

Digits may be separated by single underscores. Integers have to fit 64 bits with a sign, and are
also written to the bases 16, 8 and 2. This file defines:

- `moreDigits?`, `digits?`: digits with underscores;
- `Decimal.toFloat`: the floating-point number nearest to a decimal;
- `number?`: a number.
-/

namespace TypeNameLint

/-- The floating-point number nearest to a decimal. Beyond 400 places it is infinite or zero. -/
def Decimal.toFloat (d : Decimal) : Float :=
  let point := (Nat.toDigits 10 d.digits).length + d.exponent
  if d.digits = 0 then 0.0
  else if point > 400 then 1.0 / 0.0
  else if point < -400 then 0.0
  else Float.ofScientific d.digits (d.exponent < 0) d.exponent.natAbs

namespace Toml

/-! ## Digits -/

/-- Further digits, each perhaps with an underscore before it, and the text after them. -/
def moreDigits? (isDigit : Char → Bool) : List Char → Option (List Char × List Char)
  | [] => some ([], [])
  | ['_'] => none
  | '_' :: c :: rest => if isDigit c then push c (moreDigits? isDigit rest) else none
  | c :: rest => if isDigit c then push c (moreDigits? isDigit rest) else some ([], c :: rest)

/-- At least one digit, and the text after the digits. -/
def digits? (isDigit : Char → Bool) : List Char → Option (List Char × List Char)
  | c :: rest => if isDigit c then push c (moreDigits? isDigit rest) else none
  | [] => none

def digitsValue (base : Nat) (digits : List Char) : Nat :=
  digits.foldl (fun n c => n * base + (Text.hexValue? c).getD 0) 0

/-! ## Integers -/

/-- An integer that fits 64 bits with a sign. -/
def integer? (n : Int) : Option Value :=
  if -0x8000000000000000 ≤ n ∧ n < 0x8000000000000000 then some (.integer n) else none

def radixInteger? (base : Nat) (cs : List Char) : Option (Value × List Char) := do
  let isDigit := fun c => (Text.hexValue? c).any fun digit => digit < base
  let (digits, rest) ← digits? isDigit cs
  let value ← integer? (digitsValue base digits)
  return (value, rest)

/-! ## Numbers to the base ten -/

/-- The digits before a point, without leading zeros. -/
def wholeDigits? : List Char → Option (List Char × List Char)
  -- A zero ends the digits, so that a digit behind it is left over and refused.
  | '0' :: rest => some (['0'], rest)
  | cs => digits? Char.isDigit cs

/-- The digits after a point, if there is a point. -/
def fraction? : List Char → Option (Option (List Char) × List Char)
  | '.' :: rest => (digits? Char.isDigit rest).map fun (digits, rest) => (some digits, rest)
  | cs => some (none, cs)

/-- The exponent, if there is one. -/
def exponent? : List Char → Option (Option Int × List Char)
  | c :: rest =>
    if c = 'e' ∨ c = 'E' then
      match rest with
      | '-' :: rest =>
        (digits? Char.isDigit rest).map fun (digits, rest) => (some (-digitsValue 10 digits), rest)
      | '+' :: rest =>
        (digits? Char.isDigit rest).map fun (digits, rest) => (some (digitsValue 10 digits), rest)
      | rest =>
        (digits? Char.isDigit rest).map fun (digits, rest) => (some (digitsValue 10 digits), rest)
    else some (none, c :: rest)
  | [] => some (none, [])

/-- A floating-point number of a sign and a magnitude. One that is not negative has to be finite,
unless it is written as infinite. -/
def float? (negative : Bool) (magnitude : Float) : Option Value :=
  if negative then some (.float (-magnitude))
  else if magnitude.isInf then none
  else some (.float magnitude)

/-- A number without its sign, and the text after it. -/
def unsigned? (negative : Bool) (cs : List Char) : Option (Value × List Char) :=
  match cs with
  | 'i' :: 'n' :: 'f' :: rest =>
    some (.float (if negative then -(1.0 / 0.0) else 1.0 / 0.0), rest)
  | 'n' :: 'a' :: 'n' :: rest => some (.float (0.0 / 0.0), rest)
  | cs => do
    let (whole, rest) ← wholeDigits? cs
    let (fraction, rest) ← fraction? rest
    let (exponent, rest) ← exponent? rest
    if fraction.isNone && exponent.isNone then
      let n := digitsValue 10 whole
      let value ← integer? (if negative then -n else n)
      return (value, rest)
    else
      let places := fraction.getD []
      let d : Decimal := ⟨digitsValue 10 (whole ++ places), exponent.getD 0 - places.length⟩
      let value ← float? negative d.toFloat
      return (value, rest)

/-- A number, and the text after it. -/
def number? : List Char → Option (Value × List Char)
  | '0' :: 'x' :: rest => radixInteger? 16 rest
  | '0' :: 'o' :: rest => radixInteger? 8 rest
  | '0' :: 'b' :: rest => radixInteger? 2 rest
  | '+' :: rest => unsigned? false rest
  | '-' :: rest => unsigned? true rest
  | cs => unsigned? false cs

end Toml
end TypeNameLint
