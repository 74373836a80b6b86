import Highlighter.Span
import Highlighter.Text.Quoted

/-!
Spans as a JSON document, indented by two, in ASCII.
-/

set_option autoImplicit false

namespace Highlighter

namespace Json

/-- A code unit of UTF-16 as an escape. -/
def escapeUnit (n : Nat) : Text := '\\' :: 'u' :: hexDigits 4 n

/-- A character inside a JSON string. Characters above U+FFFF are written as two surrogates. -/
def escapeChar (c : Char) : Text :=
  if c = '"' then ['\\', '"']
  else if c = '\\' then ['\\', '\\']
  else if c = '\n' then ['\\', 'n']
  else if c = '\r' then ['\\', 'r']
  else if c = '\t' then ['\\', 't']
  else if c = '\x0c' then ['\\', 'f']
  else if c = '\x08' then ['\\', 'b']
  else if 0x20 ≤ c.toNat ∧ c.toNat ≤ 0x7E then [c]
  else if c.toNat ≤ 0xFFFF then escapeUnit c.toNat
  else
    let n := c.toNat - 0x10000
    escapeUnit (0xD800 + n / 0x400) ++ escapeUnit (0xDC00 + n % 0x400)

def string (t : Text) : Text := '"' :: t.flatMap escapeChar ++ ['"']

def renderSpan (s : Span) : Text :=
  "  \x7b\n    \"start\": ".toList ++ (toString s.start).toList
    ++ ",\n    \"end\": ".toList ++ (toString s.stop).toList
    ++ ",\n    \"tag\": ".toList ++ string s.tag ++ "\n  \x7d".toList

def render : List Span → Text
  | [] => "[]\n".toList
  | spans => "[\n".toList ++ ",\n".toList.intercalate (spans.map renderSpan) ++ "\n]\n".toList

end Json

end Highlighter
