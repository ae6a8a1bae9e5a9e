/-!
# Text.Bytes — byte offsets into a text

Offsets, lengths and columns count the bytes of the UTF-8 form of a text. The functions here move
between byte offsets and lists of characters; an offset that falls inside a character cuts nothing.

- `byteLength`: the number of bytes of a text;
- `splitAtByte?`: the text before and after a byte offset;
- `slice?`: the text between two byte offsets;
- `Position`, `positionAt`: the row and column of a byte offset.
-/

namespace TypeNameLint
namespace Text

/-! ## Cutting at byte offsets -/

def byteLength : List Char → Nat
  | [] => 0
  | c :: cs => c.utf8Size + byteLength cs

/-- The text before and after the byte offset `n`, unless `n` lies beyond the end or inside a
character. -/
def splitAtByte? : Nat → List Char → Option (List Char × List Char)
  | 0, cs => some ([], cs)
  | _ + 1, [] => none
  | n + 1, c :: cs =>
    if c.utf8Size ≤ n + 1 then
      (splitAtByte? (n + 1 - c.utf8Size) cs).map fun (before, after) => (c :: before, after)
    else none

/-- The text from byte `start` up to byte `stop`, unless the two are out of order or one of them
is not the offset of a character or of the end. -/
def slice? (cs : List Char) (start stop : Nat) : Option (List Char) :=
  if start ≤ stop then do
    let (_, after) ← splitAtByte? start cs
    let (piece, _) ← splitAtByte? (stop - start) after
    return piece
  else none

/-! ## Rows and columns -/

/-- A place in a text: the number of line feeds before it, and the number of bytes since the last
of these or since the start. -/
structure Position where
  row : Nat
  column : Nat
  deriving DecidableEq, Repr

namespace Position

/-- The place just after a character. -/
def after (c : Char) (p : Position) : Position :=
  if c = '\n' then ⟨p.row + 1, 0⟩ else ⟨p.row, p.column + c.utf8Size⟩

end Position

/-- The place that lies `n` bytes after the place `p`, where the text `cs` begins. -/
def positionFrom (p : Position) : Nat → List Char → Position
  | 0, _ => p
  | n + 1, [] => ⟨p.row, p.column + (n + 1)⟩
  | n + 1, c :: cs =>
    if c.utf8Size ≤ n + 1 then positionFrom (p.after c) (n + 1 - c.utf8Size) cs
    else ⟨p.row, p.column + (n + 1)⟩

def positionAt (cs : List Char) (offset : Nat) : Position :=
  positionFrom ⟨0, 0⟩ offset cs

end Text
end TypeNameLint
