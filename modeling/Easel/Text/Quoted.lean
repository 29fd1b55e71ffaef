import Easel.Text.Printable

/-!
# Easel.Text.Quoted

Text between double quotes on one line: what cannot be shown as it is, and the quote and the
backslash themselves, are written as escapes.
-/

namespace Easel
namespace Text

/-- A character by its code point, in as few hexadecimal digits as it takes. -/
def codePoint (c : Char) : List Char :=
  ['\\', 'u', '\x7b'] ++ Nat.toDigits 16 c.toNat ++ ['\x7d']

def escape (c : Char) : List Char :=
  if c = '"' then ['\\', '"']
  else if c = '\\' then ['\\', '\\']
  else if c = '\t' then ['\\', 't']
  else if c = '\r' then ['\\', 'r']
  else if c = '\n' then ['\\', 'n']
  else if c = '\x00' then ['\\', '0']
  else if isPrintable c then [c]
  else codePoint c

def quoted (s : String) : String :=
  "\"" ++ String.ofList (s.toList.flatMap escape) ++ "\""

end Text
end Easel
