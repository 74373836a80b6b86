import Highlighter.Text.Basic
import Highlighter.Text.Printable

/-!
Quoted text, for messages and listings. A text stands between single quotes, or between double
quotes when it holds a single quote and no double one. Backslashes, the quote in use, line feeds,
carriage returns and tabs are escaped, and what does not print is written by its code point.
-/

set_option autoImplicit false

namespace Highlighter

/-- The lower-case hexadecimal digit of a number below sixteen. -/
def hexDigit (n : Nat) : Char :=
  if n < 10 then Char.ofNat (n + 48) else Char.ofNat (n + 87)

/-- The last `width` hexadecimal digits of a number. -/
def hexDigits : Nat → Nat → Text
  | 0, _ => []
  | width + 1, n => hexDigits width (n / 16) ++ [hexDigit (n % 16)]

namespace Text

def quoteMark (t : Text) : Char :=
  if t.contains '\'' && !t.contains '"' then '"' else '\''

def escapeQuoted (mark c : Char) : Text :=
  if c = '\\' || c = mark then ['\\', c]
  else if c = '\n' then ['\\', 'n']
  else if c = '\r' then ['\\', 'r']
  else if c = '\t' then ['\\', 't']
  else if isPrintable c then [c]
  else if c.toNat < 0x100 then '\\' :: 'x' :: hexDigits 2 c.toNat
  else if c.toNat < 0x10000 then '\\' :: 'u' :: hexDigits 4 c.toNat
  else '\\' :: 'U' :: hexDigits 8 c.toNat

def quoted (t : Text) : Text :=
  t.quoteMark :: t.flatMap (escapeQuoted t.quoteMark) ++ [t.quoteMark]

end Text

end Highlighter
