import TypeNameLint.Text.Lines

/-!
# Path — file paths as text and as components

A path keeps the text it was written with; reports show that text. Comparison, containment and
parents look at its components instead, to which repeated slashes, trailing slashes and inner `.`
pieces contribute nothing. This file defines:

- `Path`, `Component`, `components`: the two views;
- `relativeTo?`: what is left of a path below another one;
- `join`, `parent?`, `ancestors`, `absolute`: paths made from paths;
- `fileName?`, `extension?`: the parts of the last component;
- `compare`: the order of paths by their components.
-/

namespace TypeNameLint

/-- A file path, as written. -/
structure Path where
  text : String
  deriving DecidableEq, Repr, Inhabited

namespace Path

/-! ## Components -/

/-- One step of a path. -/
inductive Component where
  | root
  | current
  | parent
  | name (text : String)
  deriving DecidableEq, Repr

/-- The component that a piece between slashes stands for away from the start of a path. -/
def Component.ofPiece? : List Char → Option Component
  | [] => none
  | ['.'] => none
  | ['.', '.'] => some .parent
  | cs => some (.name (String.ofList cs))

/-- The components of the pieces of a path: a leading slash is the root, and a `.` counts only at
the start. -/
def componentsOfPieces : List (List Char) → List Component
  | [[]] => []
  | [] :: rest => .root :: rest.filterMap Component.ofPiece?
  | ['.'] :: rest => .current :: rest.filterMap Component.ofPiece?
  | pieces => pieces.filterMap Component.ofPiece?

def pieces (p : Path) : List (List Char) :=
  Text.splitOn '/' p.text.toList

def components (p : Path) : List Component :=
  componentsOfPieces p.pieces

def isAbsolute (p : Path) : Bool :=
  p.text.toList.head? = some '/'

/-! ## Paths below other paths -/

/-- Whether a piece away from the start of a path stands for no component. -/
def isIdle (piece : List Char) : Bool :=
  (Component.ofPiece? piece).isNone

/-- The pieces without the trailing ones that stand for no component. -/
def trimPieces (pieces : List (List Char)) : List (List Char) :=
  (pieces.reverse.dropWhile isIdle).reverse

/-- The pieces that follow the first `n` components, starting with a piece of a component. -/
def dropComponents : Nat → List (List Char) → List (List Char)
  | _, [] => []
  | n, piece :: rest =>
    if isIdle piece then dropComponents n rest
    else
      match n with
      | 0 => piece :: rest
      | m + 1 => dropComponents m rest

def ofPieces (pieces : List (List Char)) : Path :=
  ⟨String.ofList (Text.joinWith '/' pieces)⟩

/-- The path of the pieces below a start that is kept as it is: the root, or a leading `.`. -/
def ofStart (start : List Char) (rest : List (List Char)) : Path :=
  if start.isEmpty ∧ rest.isEmpty then ⟨"/"⟩ else ofPieces (start :: rest)

/-- The same path without trailing slashes and trailing `.` pieces. -/
def trimmed (p : Path) : Path :=
  match p.pieces with
  | [[]] => ofPieces []
  | [] :: rest => ofStart [] (trimPieces rest)
  | ['.'] :: rest => ofStart ['.'] (trimPieces rest)
  | pieces => ofPieces (trimPieces pieces)

/-- The path after its first `n + 1` components. -/
def afterComponents (n : Nat) (p : Path) : Path :=
  match p.pieces with
  | [] :: rest => ofPieces (trimPieces (dropComponents n rest))
  | ['.'] :: rest => ofPieces (trimPieces (dropComponents n rest))
  | pieces => ofPieces (trimPieces (dropComponents (n + 1) pieces))

/-- What is left of `p` below `base`, if the components of `base` begin those of `p`. -/
def relativeTo? (p base : Path) : Option Path :=
  if base.components.isPrefixOf p.components then
    match base.components.length with
    -- Below an empty base nothing goes but the pieces at the end that stand for no component.
    | 0 => some p.trimmed
    | n + 1 => some (p.afterComponents n)
  else none

/-! ## Making paths from paths -/

/-- The path `q` taken from the directory `p`. -/
def join (p q : Path) : Path :=
  if q.isAbsolute then q
  else if p.text.isEmpty ∨ p.text.toList.getLast? = some '/' then ⟨p.text ++ q.text⟩
  else ⟨p.text ++ "/" ++ q.text⟩

/-- The path without its last component, unless that is the root or there is none. -/
def parent? (p : Path) : Option Path :=
  match p.pieces with
  | [[]] => none
  | [] :: rest =>
    match trimPieces rest with
    | [] => none
    | body => some (ofStart [] (trimPieces body.dropLast))
  | ['.'] :: rest =>
    match trimPieces rest with
    -- The current directory by itself still has a parent, the empty path.
    | [] => some ⟨""⟩
    | body => some (ofStart ['.'] (trimPieces body.dropLast))
  | pieces =>
    match trimPieces pieces with
    | [] => none
    | body => some (ofPieces (trimPieces body.dropLast))

/-- The path and at most `n` of its ancestors, from the nearest. -/
def ancestorsWithin : Nat → Path → List Path
  | 0, p => [p]
  | n + 1, p =>
    match p.parent? with
    | none => [p]
    | some q => p :: ancestorsWithin n q

/-- The path, its parent, the parent of that, and so on. A parent is shorter than its child, so
the length of the text bounds their number. -/
def ancestors (p : Path) : List Path :=
  ancestorsWithin p.text.length p

def Component.text : Component → String
  | .root => "/"
  | .current => "."
  | .parent => ".."
  | .name s => s

/-- The path made absolute against the directory `cwd` by looking at its text alone: components
are joined one by one, a trailing slash is kept, and so are exactly two leading slashes. -/
def absolute (p cwd : Path) : Path :=
  let chars := p.text.toList
  -- A leading current directory is no step of its own.
  let steps := ((p.relativeTo? ⟨"."⟩).getD p).components
  let (start, steps) : Path × List Component :=
    match chars with
    -- Three slashes and more are the same root as one; just two are another.
    | '/' :: '/' :: '/' :: _ => (⟨""⟩, steps)
    | '/' :: '/' :: _ => (⟨"//"⟩, steps.drop 1)
    | '/' :: _ => (⟨""⟩, steps)
    | _ => (cwd, steps)
  let joined := steps.foldl (fun q step => q.join ⟨step.text⟩) start
  if chars.getLast? = some '/' then joined.join ⟨""⟩ else joined

/-! ## The last component -/

/-- The last component, if it is a name. -/
def fileName? (p : Path) : Option String :=
  match p.components.getLast? with
  | some (.name s) => some s
  | _ => none

/-- What follows the last dot of a name. A name without a dot after its first character has no
extension. -/
def nameExtension? (name : String) : Option String :=
  let pieces := Text.splitOn '.' name.toList
  match pieces.reverse with
  | last :: before =>
    -- The only dot of a name does not begin an extension if it comes first.
    if before.isEmpty ∨ before = [[]] then none else some (String.ofList last)
  | [] => none

/-- The extension of the last component, without its dot. -/
def extension? (p : Path) : Option String :=
  p.fileName?.bind nameExtension?

/-! ## Order -/

/-- The place of a kind of component in the order: the root first, then `.`, `..` and names. -/
def Component.rank : Component → Nat
  | .root => 0
  | .current => 1
  | .parent => 2
  | .name _ => 3

/-- Components are ordered by kind, and names by code points. -/
def Component.compare : Component → Component → Ordering
  | .name s, .name t => Ord.compare s t
  | a, b => Ord.compare a.rank b.rank

/-- The lexicographic order of component lists. -/
def compareComponents : List Component → List Component → Ordering
  | [], [] => .eq
  | [], _ :: _ => .lt
  | _ :: _, [] => .gt
  | a :: as, b :: bs => (a.compare b).then (compareComponents as bs)

/-- The order of paths by their components. -/
def compare (p q : Path) : Ordering :=
  compareComponents p.components q.components

end Path
end TypeNameLint
