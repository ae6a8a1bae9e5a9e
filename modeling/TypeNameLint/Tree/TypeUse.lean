import TypeNameLint.Tree.Cursor
import TypeNameLint.Text.Bytes
import TypeNameLint.Report.Basic

/-!
# Tree.TypeUse — the nodes of a tree at which a type is written

A name, a qualified name or a generic instantiation counts as a use of a type unless it declares
the name, is a part of a longer name, or stands in a heritage clause. A structural type literal
always counts. This file defines:

- `TypeUse`: a type reference or a type literal;
- `isReference`: the test of a place by its parent and grandparent;
- `typeUses`: all uses of a tree, in document order;
- `nodeText`, `locationOf`: the text and the location of a node.
-/

namespace TypeNameLint

/-! ## Text and place of a node -/

/-- The text of a node, empty if its span does not fit the source. -/
def nodeText (source : List Char) (label : Label) : String :=
  String.ofList ((Text.slice? source label.start label.stop).getD [])

/-- The location that covers a node. -/
def locationOf (file : Path) (source : List Char) (label : Label) : Location :=
  let position := Text.positionAt source label.start
  { file
    line := position.row + 1
    column := position.column + 1
    offset := label.start
    length := label.stop - label.start }

/-! ## Places that use a type -/

/-- Clauses whose direct types name heritage. -/
def isHeritageClause (kind : String) : Bool :=
  ["implements_clause", "extends_type_clause"].contains kind

/-- Nodes whose name is declared by them. -/
def isDeclaration (kind : String) : Bool :=
  ["class_declaration", "abstract_class_declaration", "class", "interface_declaration",
   "type_alias_declaration", "type_parameter", "mapped_type_clause"].contains kind

/-- Whether a node carries the field `name`. -/
def hasNameField (t : Tree) : Bool :=
  t.label.field = some "name"

/-- Whether a child is what its parent calls `name`: the first child with that field. -/
def isNameOf (t : Tree) (crumb : Crumb) : Bool :=
  hasNameField t && !crumb.left.any hasNameField

/-- Whether a name at a place refers to a type. -/
def isReference (c : Cursor) : Bool :=
  match c.crumbs with
  | [] => false
  | crumb :: above =>
    let kind := crumb.label.kind
    let named := isNameOf c.focus crumb
    if kind = "nested_type_identifier" ∨ isHeritageClause kind then false
    -- The head of an instantiation counts, unless a heritage clause names the instantiation.
    else if kind = "generic_type" ∧ named then
      above.head?.all fun outer => !isHeritageClause outer.label.kind
    else if isDeclaration kind then !named
    -- What comes first in an inferred type is the name that it introduces.
    else if kind = "infer_type" then !crumb.left.isEmpty
    else true

/-! ## Uses -/

/-- A node at which a type is written: a reference, with its name, or a structural literal. -/
inductive TypeUse where
  | reference (node : Tree)
  | literal (node : Tree)
  deriving Repr

namespace TypeUse

def node : TypeUse → Tree
  | reference t => t
  | literal t => t

/-- The number of members of a literal; comments are none, and a reference has no members. -/
def memberCount : TypeUse → Nat
  | reference _ => 0
  | literal t => t.children.countP fun child => child.kind ≠ "comment"

/-- Whether this is a literal without members. -/
def isEmptyLiteral : TypeUse → Bool
  | reference _ => false
  | literal t => (literal t).memberCount = 0

/-- The use of a type at a place, if there is one. -/
def ofCursor? (c : Cursor) : Option TypeUse :=
  let kind := c.focus.kind
  if kind = "object_type" then some (literal c.focus)
  else if ["type_identifier", "nested_type_identifier", "generic_type"].contains kind
      && isReference c then some (reference c.focus)
  else none

end TypeUse

/-- The uses of types in a tree, in document order. -/
def typeUses (t : Tree) : List TypeUse :=
  (Cursor.ofTree t).walk.filterMap TypeUse.ofCursor?

end TypeNameLint
