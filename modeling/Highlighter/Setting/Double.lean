import Highlighter.Text.Basic

/-!
Numbers of double precision. A decimal stands for the nearest number there is, and a number is shown
by the shortest decimal that stands for it.
-/

set_option autoImplicit false

namespace Highlighter

/-- The nearest whole number; of two that are equally near, the even one. -/
def nearest (q : Rat) : Int :=
  let below := q.floor
  let part := q - below
  if part < 1 / 2 ∨ part = 1 / 2 ∧ below % 2 = 0 then below else below + 1

/-- The place of the leading digit of a positive number: the power of the base that it reaches. -/
def leadingPlace (base : Nat) (digits : Nat → Nat) (q : Rat) : Int :=
  let place := (digits q.num.toNat : Int) - digits q.den
  if (base : Rat) ^ place ≤ q then place else place - 1

inductive Double where
  | nan
  | infinite (negative : Bool)
  | finite (negative : Bool) (size : Rat)
  deriving DecidableEq, Repr

namespace Double

/-- How many binary digits a number has behind the leading one. -/
def precision : Nat := 52

/-- No number has a binary digit behind the one for `2 ^ lowestPlace`. -/
def lowestPlace : Int := -1074

/-- All numbers are below `2 ^ highestPlace`. -/
def highestPlace : Nat := 1024

/-- The number nearest to a positive size, if it is not too large for one. -/
def round (size : Rat) : Option Rat :=
  let unit : Rat := 2 ^ max lowestPlace (leadingPlace 2 Nat.log2 size - precision)
  let rounded := nearest (size / unit) * unit
  if rounded < 2 ^ highestPlace then some rounded else none

/-- The number of decimal digits. -/
def width (n : Nat) : Nat := (Nat.toDigits 10 n).length

/-- The number that `digits * 10 ^ exponent` stands for. Whether it is out of all bounds is told
from how long it is, before the power is computed. -/
def ofDecimal (negative : Bool) (digits : Nat) (exponent : Int) : Double :=
  let length := width digits + exponent
  if digits = 0 ∨ length < -330 then finite negative 0
  else if 310 < length then infinite negative
  else
    match round (digits * 10 ^ exponent) with
    | some size => finite negative size
    | none => infinite negative

/-- The decimal of so many places that is nearest to a size, among those that stand for it. -/
def decimal? (size : Rat) (places : Int) : Option Nat :=
  let scaled := size * 10 ^ places
  let below := scaled.floor.toNat
  let standsFor := fun n : Nat => round (n * 10 ^ (-places)) = some size
  if standsFor below then
    if standsFor (below + 1) then some (nearest scaled).toNat else some below
  else if standsFor (below + 1) then some (below + 1) else none

/-- The digits of the shortest decimal that stands for a positive size, and how many of them come
before the point. Seventeen digits are always enough. -/
def shortest (size : Rat) : Text × Int :=
  let point := leadingPlace 10 width size + 1
  let found := (List.range 17).findSome? fun (n : Nat) =>
    let places : Int := n + 1 - point
    (decimal? size places).map fun digits => (Nat.toDigits 10 digits, width digits - places)
  let (digits, point) := found.getD ([], 0)
  ((digits.reverse.dropWhile (· == '0')).reverse, point)

/-- Digits with a point between them, or with an exponent if the point is too far away. -/
def written (digits : Text) (point : Int) : Text :=
  if point ≤ -4 ∨ 16 < point then
    let exponent := Nat.toDigits 10 (point - 1).natAbs
    digits.take 1 ++ (if digits.length = 1 then [] else '.' :: digits.drop 1) ++
      ['e', if point < 1 then '-' else '+'] ++
      List.replicate (2 - exponent.length) '0' ++ exponent
  else if point ≤ 0 then
    "0.".toList ++ List.replicate (-point).toNat '0' ++ digits
  else
    let whole := point.toNat
    let digits := digits ++ List.replicate (whole + 1 - digits.length) '0'
    digits.take whole ++ '.' :: digits.drop whole

/-- The number as messages show it. -/
def shown : Double → Text
  | nan => "nan".toList
  | infinite negative => sign negative ++ "inf".toList
  | finite negative size =>
    sign negative ++
      if size = 0 then "0.0".toList
      else
        let (digits, point) := shortest size
        written digits point
where
  sign (negative : Bool) : Text := if negative then ['-'] else []

end Double

end Highlighter
