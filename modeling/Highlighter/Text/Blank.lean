import Highlighter.Text.Ranges

/-!
Blank characters: the Unicode space separators, the line and paragraph separators, and the
control characters that move the cursor or separate records.
-/

set_option autoImplicit false

namespace Highlighter

def blankRanges : Ranges := [
  (0x9, 0xd), (0x1c, 0x20), (0x85, 0x85), (0xa0, 0xa0), (0x1680, 0x1680), (0x2000, 0x200a),
  (0x2028, 0x2029), (0x202f, 0x202f), (0x205f, 0x205f), (0x3000, 0x3000)
]

def isBlank (c : Char) : Bool := blankRanges.has c

end Highlighter
