import TypeNameLint.Decimal.Shortest

/-!
# Decimal.Layout — how a floating-point number is written

- `NumberStyle`: what a format decides, apart from the digits;
- `NumberStyle.render`: the text of a number.
-/

namespace TypeNameLint

/-- What a format decides about the text of a number. The position of the point counts the digits
before it, so `12.5` has position 2 and `0.05` has position -1. -/
structure NumberStyle where
  /-- Positions up to this one are written with an exponent. -/
  smallPoint : Option Int
  /-- Positions above this one are written with an exponent. -/
  largePoint : Option Int
  /-- Which of two equally near decimals is written. -/
  tie : TieRule
  /-- What follows the name of a value that is no number or infinite. -/
  specialEnd : String
  deriving Repr

namespace NumberStyle

def digitsOf (n : Nat) : List Char :=
  Nat.toDigits 10 n

/-- Digits with a point at a position, and a zero where a side would be empty. -/
def positional (digits : List Char) (point : Int) : List Char :=
  if point ≤ 0 then '0' :: '.' :: List.replicate (-point).toNat '0' ++ digits
  else
    let n := point.toNat
    if digits.length ≤ n then digits ++ List.replicate (n - digits.length) '0' ++ ['.', '0']
    else digits.take n ++ '.' :: digits.drop n

/-- Digits with a point after the first one, unless that is all, and the exponent. -/
def scientific (digits : List Char) (point : Int) : List Char :=
  let exponent := point - 1
  let sign := if exponent < 0 then ['-'] else []
  let body :=
    match digits with
    | first :: second :: rest => first :: '.' :: second :: rest
    | short => short
  body ++ 'e' :: sign ++ digitsOf exponent.natAbs

def layout (style : NumberStyle) (d : Decimal) : List Char :=
  let digits := digitsOf d.digits
  let point := (digits.length : Int) + d.exponent
  let tiny := style.smallPoint.any fun bound => point ≤ bound
  let huge := style.largePoint.any fun bound => bound < point
  if tiny || huge then scientific digits point else positional digits point

def render (style : NumberStyle) (x : Float) : String :=
  let bits := x.toBits.toNat
  let negative := bits ≥ Nat.pow 2 63
  let sign := if negative then "-" else ""
  if x.isNaN then "NaN" ++ style.specialEnd
  else if x.isInf then sign ++ "inf" ++ style.specialEnd
  else
    match Binary.ofBits? bits with
    | some magnitude => sign ++ String.ofList (style.layout (magnitude.shortest style.tie))
    | none => sign ++ "0.0"

end NumberStyle

/-- Numbers in listings: with an exponent outside `1e-4 ≤ x < 1e16`. -/
def listingNumbers : NumberStyle := ⟨some (-4), some 16, .up, ""⟩

/-- Numbers in messages about structured reports: with an exponent outside `1e-5 ≤ x < 1e16`. -/
def reportNumbers : NumberStyle := ⟨some (-5), some 16, .even, ""⟩

/-- Numbers in messages about configuration: never with an exponent. -/
def configNumbers : NumberStyle := ⟨none, none, .up, ".0"⟩

end TypeNameLint
