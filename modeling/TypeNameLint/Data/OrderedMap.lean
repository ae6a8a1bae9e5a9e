/-!
# Data.OrderedMap — maps with string keys that remember the order of insertion

A key that is inserted again keeps its place and takes the new value. This file defines
`OrderedMap` with `empty`, `insert`, `get?`, `keys`, `size` and `ofList`.
-/

namespace TypeNameLint

/-- A map given by its entries in the order of their first insertion. -/
structure OrderedMap (α : Type) where
  toList : List (String × α)
  deriving DecidableEq, Repr

namespace OrderedMap

variable {α : Type}

/-- The map without entries. -/
def empty : OrderedMap α := ⟨[]⟩

/-- The entries with the value of a key set: in place if the key is there, else at the end. -/
def insertEntry (key : String) (value : α) : List (String × α) → List (String × α)
  | [] => [(key, value)]
  | entry :: entries =>
    if entry.1 = key then (key, value) :: entries
    else entry :: insertEntry key value entries

def insert (m : OrderedMap α) (key : String) (value : α) : OrderedMap α :=
  ⟨insertEntry key value m.toList⟩

def get? (m : OrderedMap α) (key : String) : Option α :=
  m.toList.lookup key

/-- The keys, in order. -/
def keys (m : OrderedMap α) : List String :=
  m.toList.map Prod.fst

def size (m : OrderedMap α) : Nat :=
  m.toList.length

def isEmpty (m : OrderedMap α) : Bool :=
  m.toList.isEmpty

/-- The map of a list of entries, inserted from the first on. -/
def ofList (entries : List (String × α)) : OrderedMap α :=
  entries.foldl (fun m entry => m.insert entry.1 entry.2) empty

end OrderedMap
end TypeNameLint
