import TypeNameLint.Text.Hex
import TypeNameLint.Text.Visible

/-!
# Text.Quoted — texts in double quotes, for messages

- `quoteChar`: what a character is written as between the quotes;
- `quoted`: a text in quotes.
-/

namespace TypeNameLint
namespace Text

/-- What a character is written as between the quotes. -/
def quoteChar (c : Char) : List Char :=
  match c with
  | '"' => ['\\', '"']
  | '\\' => ['\\', '\\']
  | '\n' => ['\\', 'n']
  | '\r' => ['\\', 'r']
  | '\t' => ['\\', 't']
  | '\x00' => ['\\', '0']
  | c => if isVisible c then [c] else "\\u\x7b".toList ++ hexDigits c.toNat ++ ['}']

def quoted (s : String) : String :=
  String.ofList ('"' :: s.toList.flatMap quoteChar ++ ['"'])

end Text
end TypeNameLint
