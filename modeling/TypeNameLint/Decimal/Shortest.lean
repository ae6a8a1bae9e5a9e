/-!
# Decimal.Shortest — the fewest digits that identify a binary fraction

A finite floating-point number stands for every real that rounds to it. Of all decimals among these
reals the one with the fewest digits is written; of several with that many digits, the nearest to
the number. This file defines:

- `Binary`: a positive number `mantissa · 2 ^ exponent`, and `Binary.ofBits?`;
- `Decimal`: a number `digits · 10 ^ exponent`;
- `Binary.neighbour?`: the decimal of a given grid that identifies a number;
- `Binary.shortest`: the decimal on the coarsest grid that has one.
-/

namespace TypeNameLint

/-! ## Numbers -/

/-- The number `mantissa · 2 ^ exponent`. Below a power of two the reals that round to it reach only
half as far. -/
structure Binary where
  mantissa : Nat
  exponent : Int
  isPower : Bool
  deriving DecidableEq, Repr

/-- The number `digits · 10 ^ exponent`. -/
structure Decimal where
  digits : Nat
  exponent : Int
  deriving DecidableEq, Repr

/-- Which of two equally near decimals is written. -/
inductive TieRule where
  | even
  | up
  deriving DecidableEq, Repr

namespace Binary

/-- The magnitude of a finite number of 64 bits other than zero: 52 bits of fraction below 11 bits
of exponent below the sign. -/
def ofBits? (bits : Nat) : Option Binary :=
  let fraction := bits % Nat.pow 2 52
  let scale := bits / Nat.pow 2 52 % Nat.pow 2 11
  if scale = 2047 then none
  else if scale = 0 then
    if fraction = 0 then none else some ⟨fraction, -1074, false⟩
  else some ⟨Nat.pow 2 52 + fraction, Int.ofNat scale - 1075, fraction = 0 && scale > 1⟩

/-! ## One grid -/

/-- The factor `base ^ exponent`, if the exponent is positive, and one otherwise. -/
def scaleUp (base : Nat) (exponent : Int) : Nat :=
  Nat.pow base exponent.toNat

/-- The nearest multiple of `10 ^ grid` that rounds to the number. All quantities are brought to
the common unit `2 ^ (exponent - 2) · 10 ^ grid` with negative powers moved to the other side. -/
def neighbour? (tie : TieRule) (x : Binary) (grid : Int) : Option Decimal :=
  let unit := scaleUp 2 (x.exponent - 2) * scaleUp 10 (-grid)
  let step := scaleUp 10 grid * scaleUp 2 (2 - x.exponent)
  let value := 4 * x.mantissa * unit
  let low := (4 * x.mantissa - (if x.isPower then 1 else 2)) * unit
  let high := (4 * x.mantissa + 2) * unit
  let closed := x.mantissa % 2 = 0
  let identifies := fun (d : Nat) =>
    0 < d && (low < d * step || (closed && low = d * step)) &&
      (d * step < high || (closed && d * step = high))
  let below := value / step
  let above := below + 1
  let nearer := fun (_ : Unit) =>
    let down := value - below * step
    let up := above * step - value
    if down < up then below
    else if up < down then above
    else
      match tie with
      | .up => above
      | .even => if below % 2 = 0 then below else above
  match identifies below, identifies above with
  | true, true => some ⟨nearer (), grid⟩
  | true, false => some ⟨below, grid⟩
  | false, true => some ⟨above, grid⟩
  | false, false => none

/-! ## The coarsest grid -/

/-- A grid too coarse to identify the number, and not many times too coarse. -/
def coarseGrid (x : Binary) : Int :=
  let width := Int.ofNat x.mantissa.log2 + x.exponent + 1
  if width ≥ 0 then width / 3 + 1 else 2 - (-width * 3) / 10

/-- The decimal with the fewest digits that identifies the number. The exact value stands in if no
grid within reach has one. -/
def shortest (tie : TieRule) (x : Binary) : Decimal :=
  let found := (List.range 80).findSome? fun step =>
    x.neighbour? tie (x.coarseGrid - Int.ofNat step)
  found.getD
    ⟨x.mantissa * scaleUp 2 x.exponent * scaleUp 5 (-x.exponent),
      if x.exponent < 0 then x.exponent else 0⟩

end Binary
end TypeNameLint
