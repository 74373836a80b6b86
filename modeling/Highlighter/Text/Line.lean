import Highlighter.Text.Basic

/-!
Lines. A line feed, a carriage return and a carriage return followed by a line feed each end one
line; a text always has one line more than it has line ends.
-/

set_option autoImplicit false

namespace Highlighter.Text

/-- Puts a character in front of the first line. -/
def consLine (c : Char) : List Text → List Text
  | [] => [[c]]
  | l :: ls => (c :: l) :: ls

/-- The lines without their ends. -/
def lines : Text → List Text
  | [] => [[]]
  | '\r' :: '\n' :: t => [] :: lines t
  | c :: t => if isLineEnd c then [] :: lines t else consLine c (lines t)

/-- The text with a line feed in place of every line end. -/
def plainLineEnds : Text → Text
  | [] => []
  | '\r' :: '\n' :: t => '\n' :: plainLineEnds t
  | '\r' :: t => '\n' :: plainLineEnds t
  | c :: t => c :: plainLineEnds t

/-- Line and column of a position, both counted from one. Only what lies before the position is
looked at, so between a carriage return and its line feed a new line has begun. Positions outside
the text are moved to its nearer end. -/
def lineColumn (t : Text) (offset : Int) : Nat × Nat :=
  let before := lines (t.take offset.toNat)
  (before.length, (before.getLast?.getD []).length + 1)

end Highlighter.Text
