import TypeNameLint.Data.Value

/-!
# Toml.Table — tables that are put together from headers and dotted keys

A table that a longer header or a dotted key passes through comes into being without being defined.
A header may define it later; a dotted key may not add to a table that a header defined, and nothing
may be defined twice. This file defines:

- `Origin`, `Node`, `Nodes`: what is known about a key so far;
- `Nodes.updateAt`: a change below a path;
- `Nodes.assign`, `Nodes.ofPairs`: values under dotted keys;
- `Section`, `Nodes.addSection`: the pairs below a header;
- `Node.toValue`, `entriesOf`: the finished table.
-/

namespace TypeNameLint
namespace Toml

/-! ## What is known about a key -/

/-- How a table came into being: by a header of its own, by a longer header, or by a dotted key. -/
inductive Origin where
  | header
  | passed
  | dotted
  deriving DecidableEq, Repr

/-- What a key stands for so far: a value, a table, or a list of tables that headers define. -/
inductive Node where
  | value (value : Value)
  | table (origin : Origin) (entries : List (String × Node))
  | tables (elements : List (List (String × Node)))
  deriving Repr

/-- The keys of a table, in order, and what they stand for. -/
abbrev Nodes := List (String × Node)

/-- A value under dotted keys. -/
structure Pair where
  path : List String
  key : String
  value : Value
  deriving Repr

namespace Nodes

def replace (nodes : Nodes) (key : String) (node : Node) : Nodes :=
  nodes.map fun entry => if entry.1 = key then (key, node) else entry

/-- The table without a key. -/
def remove (nodes : Nodes) (key : String) : Nodes :=
  nodes.filter fun entry => entry.1 ≠ key

/-! ## Changes below a path -/

/-- The table with the table below a path changed. Tables on the way come into being, and of a list
of tables the last one is meant. A dotted path does not enter tables that headers defined. -/
def updateAt (isDotted : Bool) (change : Origin → Nodes → Option Nodes) :
    List String → Origin → Nodes → Option Nodes
  | [], origin, nodes => change origin nodes
  | key :: path, _, nodes =>
    match nodes.lookup key with
    | none =>
      let origin := if isDotted then Origin.dotted else Origin.passed
      (updateAt isDotted change path origin []).map fun below =>
        nodes ++ [(key, .table origin below)]
    | some (.value _) => none
    | some (.tables elements) =>
      match elements.reverse with
      | [] => none
      | last :: before =>
        (updateAt isDotted change path .header last).map fun last =>
          replace nodes key (.tables (last :: before).reverse)
    | some (.table origin below) =>
      if isDotted && origin = .header then none
      else
        (updateAt isDotted change path origin below).map fun below =>
          replace nodes key (.table origin below)

/-! ## Values under dotted keys -/

/-- The table with a value added. Its key has to be new, and the tables on the way have to come
from dotted keys. -/
def assign (nodes : Nodes) (pair : Pair) : Option Nodes :=
  let add := fun (origin : Origin) (below : Nodes) =>
    -- A pair with a path goes to a table of dotted keys, and one without to the table it is in.
    if (origin = .dotted) ≠ (pair.path ≠ []) ∨ (below.lookup pair.key).isSome then none
    else some (below ++ [(pair.key, .value pair.value)])
  updateAt true add pair.path .header nodes

/-- The table with values added in order. -/
def assignAll (nodes : Nodes) (pairs : List Pair) : Option Nodes :=
  pairs.foldlM assign nodes

def ofPairs (pairs : List Pair) : Option Nodes :=
  assignAll [] pairs

end Nodes

/-! ## Headers -/

/-- A header: the keys in its brackets, the last one apart, and whether each such header defines one
more element of a list of tables. -/
structure Header where
  path : List String
  key : String
  isElement : Bool
  deriving Repr

/-- A header and the pairs below it. -/
structure Section where
  header : Header
  pairs : List Pair
  deriving Repr

namespace Nodes

/-- The table with the table of a section defined. One that was only passed through keeps what is
below it and moves to the end. -/
def defineTable (part : Section) (nodes : Nodes) : Option Nodes :=
  let key := part.header.key
  match nodes.lookup key with
  | none => (ofPairs part.pairs).map fun below => nodes ++ [(key, .table .header below)]
  | some (.table .passed below) =>
    (assignAll below part.pairs).map fun below => remove nodes key ++ [(key, .table .header below)]
  | some _ => none

def addElement (part : Section) (nodes : Nodes) : Option Nodes :=
  let key := part.header.key
  match nodes.lookup key with
  | none => (ofPairs part.pairs).map fun element => nodes ++ [(key, .tables [element])]
  | some (.tables elements) =>
    (ofPairs part.pairs).map fun element => replace nodes key (.tables (elements ++ [element]))
  | some _ => none

def addSection (nodes : Nodes) (part : Section) : Option Nodes :=
  let change := fun (_ : Origin) (below : Nodes) =>
    if part.header.isElement then addElement part below else defineTable part below
  updateAt false change part.header.path .header nodes

end Nodes

/-! ## Finished tables -/

mutual

def Node.toValue : Node → Value
  | .value value => value
  | .table _ entries => .table (entriesOf entries)
  | .tables elements => .list (elementsOf elements)

def entriesOf : List (String × Node) → List (String × Value)
  | [] => []
  | (key, node) :: entries => (key, node.toValue) :: entriesOf entries

def elementsOf : List (List (String × Node)) → List Value
  | [] => []
  | element :: elements => .table (entriesOf element) :: elementsOf elements

end

end Toml
end TypeNameLint
