import Highlighter.Text.Utf16

/-!
Line indices: for a text, where its lines start. An editor gives a position by its line and by its
distance from the start of the line in UTF-16 code units, both counted from zero; an index turns
such positions into offsets and back.
-/

set_option autoImplicit false

namespace Highlighter

/-- Where lines start in a text whose first character is at `pos`, but for the first line. A
carriage return in front of a line feed does not end a line by itself. -/
def lineStarts (pos : Nat) : Text → List Nat
  | [] => []
  | c :: t =>
    if c = '\n' ∨ (c = '\r' ∧ t.head? ≠ some '\n') then (pos + 1) :: lineStarts (pos + 1) t
    else lineStarts (pos + 1) t

structure LineIndex where
  text : Text
  starts : List Nat
  deriving DecidableEq, Repr

namespace LineIndex

def ofText (t : Text) : LineIndex := ⟨t, 0 :: lineStarts 0 t⟩

def lineCount (x : LineIndex) : Nat := x.starts.length

/-- Where a line starts and where it ends; what ends the line is not part of it. -/
def bounds? (x : LineIndex) (line : Nat) : Option (Nat × Nat) :=
  match x.starts[line]?, x.starts[line + 1]? with
  | none, _ => none
  | some start, none => some (start, x.text.length)
  | some start, some next =>
    let stop := next - 1
    if start < stop ∧ x.text[stop]? = some '\n' ∧ x.text[stop - 1]? = some '\r' then
      some (start, stop - 1)
    else some (start, stop)

/-- The last line that does not start after an offset, or minus one before the first line. -/
def lineOf (x : LineIndex) (offset : Int) : Int :=
  (x.starts.takeWhile fun start : Nat => (start : Int) ≤ offset).length - 1

/-- How many characters have to be passed to pass `units` code units, or all of them. -/
def charsFor (units : Int) : Text → Nat
  | [] => 0
  | c :: t => if 0 < units then charsFor (units - utf16Width c) t + 1 else 0

/-- The offset of a position. A position outside the text or beyond the end of its line is moved
back to it. -/
def offsetAt (x : LineIndex) (line character : Int) : Nat :=
  if line < 0 then 0
  else
    match x.bounds? line.toNat with
    | none => x.text.length
    | some (start, stop) => start + charsFor character (x.text.slice start stop)

/-- The line and the character of an offset. -/
def positionAt (x : LineIndex) (offset : Nat) : Nat × Nat :=
  let line := (x.lineOf offset).toNat
  (line, (x.text.slice (x.starts.getD line 0) offset).utf16Length)

/-- The part of a range that lies in a line. -/
def piece? (x : LineIndex) (start stop line : Nat) : Option (Nat × Nat) :=
  match x.bounds? line with
  | none => none
  | some (first, last) =>
    let a := max start first
    let b := min stop last
    if a < b then some (a, b) else none

/-- The parts of a range that lie in the lines it touches, without what ends the lines. -/
def pieces (x : LineIndex) (start stop : Nat) : List (Nat × Nat) :=
  if start < stop then
    let first := (x.lineOf start).toNat
    let last := (x.lineOf (stop - 1 : Nat)).toNat
    (List.range' first (last + 1 - first)).filterMap (x.piece? start stop)
  else []

end LineIndex

end Highlighter
