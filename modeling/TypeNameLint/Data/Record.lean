import TypeNameLint.Data.Problem

/-!
# Data.Record — reading values of an expected shape

A record is written as a table of its fields, or as the list of their values in order. Of several
problems the first in document order is reported; missing fields are found last, in the order of
their declaration. This file defines:

- `Reading`: a value or the first fault;
- `readText`, `readBoolean`, `readCount`, `readOptional`, `readList`: readers of the simple shapes;
- `Field`, `RecordShape`, `RecordShape.read`: the fields of a record.
-/

namespace TypeNameLint

/-- What a reader makes of a value. -/
abbrev Reading (α : Type) := Except Fault α

/-- The reading that fails for a cause. -/
def misread {α : Type} (problem : Problem) : Reading α :=
  .error (.ofProblem problem)

/-! ## Simple shapes -/

def readText (expected : String) : Value → Reading String
  | .text s => .ok s
  | value => misread (.wrongType value expected)

def readBoolean : Value → Reading Bool
  | .boolean b => .ok b
  | value => misread (.wrongType value "a boolean")

/-- A natural number, which has to fit a word of 64 bits. -/
def readCount : Value → Reading Nat
  | .integer n =>
    if 0 ≤ n ∧ n < 0x10000000000000000 then .ok n.toNat else misread (.wrongValue (.integer n) "usize")
  | value => misread (.wrongType value "usize")

def readOptional {α : Type} (read : Value → Reading α) : Value → Reading (Option α)
  | .null => .ok none
  | value => (read value).map some

/-- A list, read from the first item on. -/
def readList {α : Type} (read : Value → Reading α) : Value → Reading (List α)
  | .list items => items.mapM read
  | value => misread (.wrongType value "a sequence")

/-! ## Records -/

/-- Whether a field can be left out of a table, and whether of a list. -/
inductive FieldNeed where
  /-- Never. -/
  | always
  /-- Only of a table. -/
  | optional
  /-- Of both. -/
  | defaulted
  deriving DecidableEq, Repr

/-- A field: its name, whether it is needed, and the test of its values. -/
structure Field where
  name : String
  need : FieldNeed
  check : Value → Reading Unit

/-- A field whose values a reader has to accept. -/
def Field.of {α : Type} (name : String) (need : FieldNeed) (read : Value → Reading α) : Field :=
  ⟨name, need, fun value => (read value).map fun _ => ()⟩

/-- A record: what messages call it, its fields in the order of declaration, and whether other
fields are refused. -/
structure RecordShape where
  name : String
  fields : List Field
  isClosed : Bool

/-- The values of the fields that are present. -/
abbrev FieldValues := List (String × Value)

namespace RecordShape

def listName (shape : RecordShape) : String :=
  let count := shape.fields.length
  let ending := if count = 1 then "" else "s"
  s!"{shape.name} with {count} element{ending}"

/-- The fields of a table in document order, without the ones that the record does not know. -/
def scan (shape : RecordShape) : FieldValues → List (String × Value) → Reading FieldValues
  | seen, [] => .ok seen.reverse
  | seen, (key, value) :: entries =>
    match shape.fields.find? fun field => field.name = key with
    | none =>
      -- A closed record stops at the first field it does not know; an open one drops the field.
      if shape.isClosed then misread (.unknownField key (shape.fields.map Field.name))
      else shape.scan seen entries
    | some field =>
      if (seen.lookup key).isSome then misread (.repeatedField key)
      else
        match field.check value with
        | .error fault => .error (fault.below key)
        | .ok _ => shape.scan ((key, value) :: seen) entries

def ofTable (shape : RecordShape) (entries : List (String × Value)) : Reading FieldValues :=
  match shape.scan [] entries with
  | .error fault => .error fault
  | .ok values =>
    match shape.fields.find? fun field =>
      field.need = .always && (values.lookup field.name).isNone with
    | some field => misread (.missingField field.name)
    | none => .ok values

/-- The fields of a list, `index` of which come before the given ones, and the surplus items. -/
def ofItems (shape : RecordShape) (index : Nat) :
    List Field → List Value → Reading (FieldValues × List Value)
  | [], surplus => .ok ([], surplus)
  | field :: fields, [] =>
    if field.need = .defaulted then ofItems shape (index + 1) fields []
    else misread (.wrongLength index shape.listName)
  | field :: fields, value :: items =>
    match field.check value with
    -- Faults in items carry no key, unlike those below the entries of a table.
    | .error fault => .error fault
    | .ok _ => (ofItems shape (index + 1) fields items).map fun (values, surplus) =>
      ((field.name, value) :: values, surplus)

/-- The fields of a record. A list must not be longer than the record. -/
def read (shape : RecordShape) : Value → Reading FieldValues
  | .table entries => shape.ofTable entries
  | .list items =>
    match shape.ofItems 0 shape.fields items with
    | .error fault => .error fault
    | .ok (values, surplus) => if surplus.isEmpty then .ok values else misread .surplusItems
  | value => misread (.wrongType value shape.name)

end RecordShape

namespace FieldValues

def get {α : Type} (values : FieldValues) (name : String) (read : Value → Reading α) : Reading α :=
  match values.lookup name with
  | some value => read value
  | none => misread (.missingField name)

def getD {α : Type} (values : FieldValues) (name : String) (read : Value → Reading α)
    (default : α) : Reading α :=
  match values.lookup name with
  | some value => read value
  | none => .ok default

end FieldValues
end TypeNameLint
