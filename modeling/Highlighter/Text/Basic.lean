/-!
Texts. A text is a list of characters, and every position in it counts characters. Characters are
scalar values, so that no text holds a surrogate.
-/

set_option autoImplicit false

namespace Highlighter

abbrev Text := List Char

namespace Text

/-- The characters from `start` up to `stop`. Bounds past the end of the text are cut to it, and
nothing lies between a bound and an earlier one. -/
def slice (t : Text) (start stop : Int) : Text := (t.take stop.toNat).drop start.toNat

/-- The length of the longest common beginning. -/
def commonPrefix : Text → Text → Nat
  | a :: s, b :: t => if a = b then commonPrefix s t + 1 else 0
  | _, _ => 0

theorem commonPrefix_le_left : ∀ s t : Text, commonPrefix s t ≤ s.length
  | [], _ => by simp [commonPrefix]
  | _ :: _, [] => by simp [commonPrefix]
  | a :: s, b :: t => by
    by_cases h : a = b
    · simpa [commonPrefix, h] using commonPrefix_le_left s t
    · simp [commonPrefix, h]

end Text

/-- Line feed and carriage return end a line, and so do the two in this order: carriage return,
line feed. -/
def isLineEnd (c : Char) : Bool := c == '\n' || c == '\r'

end Highlighter
