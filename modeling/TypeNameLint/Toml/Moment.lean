import TypeNameLint.Toml.Number

/-!
# Toml.Moment — dates and times

A moment is a date, a time, or a date and a time, the last perhaps with an offset. This file
defines:

- `Date`, `Time`, `Offset`, `Moment`: the parts of a moment, and `Moment.text`, its normal form;
- `startsMoment`: how a moment differs from a number;
- `moment?`: a moment.
-/

namespace TypeNameLint
namespace Toml

/-! ## Parts -/

/-- A day of the calendar. -/
structure Date where
  year : Nat
  month : Nat
  day : Nat
  deriving DecidableEq, Repr

/-- A time of day, with billionths of a second. -/
structure Time where
  hour : Nat
  minute : Nat
  second : Nat
  billionths : Nat
  deriving DecidableEq, Repr

/-- The distance from universal time in minutes, or universal time itself. -/
inductive Offset where
  | universal
  | minutes (negative : Bool) (count : Nat)
  deriving DecidableEq, Repr

/-- A moment. -/
structure Moment where
  date : Option Date
  time : Option Time
  offset : Option Offset
  deriving DecidableEq, Repr

/-! ## The normal form -/

def padded (width n : Nat) : String :=
  let digits := Nat.toDigits 10 n
  String.ofList (List.replicate (width - digits.length) '0' ++ digits)

def Date.text (d : Date) : String :=
  s!"{padded 4 d.year}-{padded 2 d.month}-{padded 2 d.day}"

/-- Hour, minute and second, with as many places as are needed. -/
def Time.text (t : Time) : String :=
  let places := ((padded 9 t.billionths).toList.reverse.dropWhile (· = '0')).reverse
  let fraction := if places.isEmpty then "" else "." ++ String.ofList places
  s!"{padded 2 t.hour}:{padded 2 t.minute}:{padded 2 t.second}{fraction}"

def Offset.text : Offset → String
  | universal => "Z"
  | minutes negative count =>
    let sign := if negative && count > 0 then "-" else "+"
    s!"{sign}{padded 2 (count / 60)}:{padded 2 (count % 60)}"

def Moment.text (m : Moment) : String :=
  let date := (m.date.map Date.text).getD ""
  let time := (m.time.map Time.text).getD ""
  let offset := (m.offset.map Offset.text).getD ""
  let link := if m.date.isSome && m.time.isSome then "T" else ""
  date ++ link ++ time ++ offset

/-! ## Reading -/

def twoDigits? : List Char → Option (Nat × List Char)
  | a :: b :: rest =>
    if a.isDigit && b.isDigit then some (digitsValue 10 [a, b], rest) else none
  | _ => none

/-- The text after a character that has to be there. -/
def expect? (mark : Char) : List Char → Option (List Char)
  | c :: rest => if c = mark then some rest else none
  | [] => none

def daysIn (year month : Nat) : Nat :=
  if month = 2 then
    if year % 4 = 0 ∧ (year % 100 ≠ 0 ∨ year % 400 = 0) then 29 else 28
  else if [4, 6, 9, 11].contains month then 30
  else 31

def date? (cs : List Char) : Option (Date × List Char) := do
  let (century, cs) ← twoDigits? cs
  let (year, cs) ← twoDigits? cs
  let year := century * 100 + year
  let (month, cs) ← twoDigits? (← expect? '-' cs)
  let (day, cs) ← twoDigits? (← expect? '-' cs)
  if 1 ≤ month ∧ month ≤ 12 ∧ 1 ≤ day ∧ day ≤ daysIn year month then
    return (⟨year, month, day⟩, cs)
  else none

/-- The billionths of a second that the digits after a point stand for; further digits are cut. -/
def billionthsOf (digits : List Char) : Nat :=
  let kept := digits.take 9
  digitsValue 10 kept * Nat.pow 10 (9 - kept.length)

def time? (cs : List Char) : Option (Time × List Char) := do
  let (hour, cs) ← twoDigits? cs
  let (minute, cs) ← twoDigits? (← expect? ':' cs)
  let (second, cs) ← twoDigits? (← expect? ':' cs)
  -- A leap second is let through on any day.
  if hour ≤ 23 ∧ minute ≤ 59 ∧ second ≤ 60 then
    match cs with
    | '.' :: rest =>
      let digits := rest.takeWhile Char.isDigit
      if digits.isEmpty then none
      else return (⟨hour, minute, second, billionthsOf digits⟩, rest.dropWhile Char.isDigit)
    | cs => return (⟨hour, minute, second, 0⟩, cs)
  else none

/-- The offset after a sign. -/
def offsetMinutes? (negative : Bool) (cs : List Char) : Option (Option Offset × List Char) := do
  let (hour, cs) ← twoDigits? cs
  let (minute, cs) ← twoDigits? (← expect? ':' cs)
  if hour ≤ 23 ∧ minute ≤ 59 then return (some (.minutes negative (hour * 60 + minute)), cs)
  else none

/-- The offset after a date and a time, if there is one. -/
def offset? : List Char → Option (Option Offset × List Char)
  | 'Z' :: rest => some (some .universal, rest)
  | 'z' :: rest => some (some .universal, rest)
  | '+' :: rest => offsetMinutes? false rest
  | '-' :: rest => offsetMinutes? true rest
  | cs => some (none, cs)

def startsTime : List Char → Bool
  | a :: b :: ':' :: _ => a.isDigit && b.isDigit
  | _ => false

def startsDate : List Char → Bool
  | a :: b :: c :: d :: '-' :: _ => a.isDigit && b.isDigit && c.isDigit && d.isDigit
  | _ => false

/-- Whether a text starts like a moment, as no number does. -/
def startsMoment (cs : List Char) : Bool :=
  startsDate cs || startsTime cs

/-- The text of the time that follows a date, if one does. -/
def linkedTime? : List Char → Option (List Char)
  | link :: rest => if ['T', 't', ' '].contains link && startsTime rest then some rest else none
  | [] => none

/-- A moment, and the text after it. -/
def moment? (cs : List Char) : Option (Moment × List Char) :=
  if startsDate cs then do
    let (date, rest) ← date? cs
    match linkedTime? rest with
    -- A blank after a date belongs to it only if a time follows.
    | none => return (⟨some date, none, none⟩, rest)
    | some rest => do
      let (time, rest) ← time? rest
      let (offset, rest) ← offset? rest
      return (⟨some date, some time, offset⟩, rest)
  else (time? cs).map fun (time, rest) => (⟨none, some time, none⟩, rest)

end Toml
end TypeNameLint
