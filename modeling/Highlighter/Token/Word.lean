import Highlighter.Text.Basic
import Highlighter.Text.Letter
import Highlighter.Text.Numeral

/-!
Words. A word starts with a letter or an underscore and goes on with letters, numerals and
underscores, of any script. Numbers, by contrast, are written in the digits 0 to 9 alone.
-/

set_option autoImplicit false

namespace Highlighter

def isWordStart (c : Char) : Bool := isLetter c || c == '_'

def isWordChar (c : Char) : Bool := isLetter c || isNumeral c || c == '_'

/-- One of the digits 0 to 9. -/
def isDigit (c : Char) : Bool := '0' ≤ c && c ≤ '9'

/-- The text is one whole word. -/
def isWord : Text → Bool
  | [] => false
  | c :: cs => isWordStart c && cs.all isWordChar

theorem isWordChar_of_isWordStart {c : Char} (h : isWordStart c = true) : isWordChar c = true := by
  simp only [isWordStart, isWordChar, Bool.or_eq_true] at *
  rcases h with h | h <;> simp [h]

end Highlighter
