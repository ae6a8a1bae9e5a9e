/-!
# Text.Blank — blank characters and trimming

Blank means the Unicode property `White_Space`. Type names are compared after all blanks are
removed, and directives are read with blanks trimmed at their ends. This file defines:

- `isBlank`: membership in the table of blank characters;
- `trimStart`, `trimEnd`, `trim`: removal of blanks at the ends of a text;
- `squeeze`: removal of every blank, the normal form under which type names are looked up.
-/

namespace TypeNameLint
namespace Text

/-! ## The property -/

/-- The code points with the property `White_Space`, as closed ranges in ascending order. -/
def blankRanges : List (Nat × Nat) :=
  [(0x0009, 0x000D), (0x0020, 0x0020), (0x0085, 0x0085), (0x00A0, 0x00A0), (0x1680, 0x1680),
   (0x2000, 0x200A), (0x2028, 0x2029), (0x202F, 0x202F), (0x205F, 0x205F), (0x3000, 0x3000)]

def isBlank (c : Char) : Bool :=
  blankRanges.any fun range => range.1 ≤ c.toNat && c.toNat ≤ range.2

/-! ## Trimming -/

/-- The text without its leading blanks. -/
def trimStart (cs : List Char) : List Char :=
  cs.dropWhile isBlank

/-- The text without its trailing blanks. -/
def trimEnd (cs : List Char) : List Char :=
  (cs.reverse.dropWhile isBlank).reverse

/-- The text without blanks at either end. -/
def trim (cs : List Char) : List Char :=
  trimEnd (trimStart cs)

/-! ## The normal form of a type name -/

/-- The text without any blanks. -/
def squeeze (s : String) : String :=
  String.ofList (s.toList.filter fun c => !isBlank c)

/-- Squeezing keeps exactly the characters that are not blank. -/
@[simp] theorem toList_squeeze (s : String) :
    (squeeze s).toList = s.toList.filter fun c => !isBlank c := by
  simp [squeeze]

/-- A squeezed text has no blanks left, so squeezing it again changes nothing. -/
@[simp] theorem squeeze_squeeze (s : String) : squeeze (squeeze s) = squeeze s := by
  rw [squeeze, toList_squeeze, List.filter_filter]
  simp [squeeze]

/-- The texts that are squeezed already are those without blanks. -/
theorem squeeze_eq_self_iff {s : String} :
    squeeze s = s ↔ ∀ c ∈ s.toList, isBlank c = false := by
  rw [← String.toList_inj, toList_squeeze, List.filter_eq_self]
  simp

end Text
end TypeNameLint
