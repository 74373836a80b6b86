import Highlighter.Setting.Basic
import Highlighter.Setting.Toml.Quotation

/-!
Numbers, dates and times of TOML. A reader tells what stands at the front of a text, and how many
characters it takes.
-/

set_option autoImplicit false

namespace Highlighter.Toml

/-! Numbers -/

def digitValue? (base : Nat) (c : Char) : Option Nat := (hexValue? c).filter (· < base)

def startsWithDigit (base : Nat) (s : Text) : Bool := (s.head?.bind (digitValue? base)).isSome

/-- The digits at the front. A single underscore may stand between two of them. -/
def digits (base : Nat) : Text → List Nat × Nat
  | [] => ([], 0)
  | c :: s =>
    match digitValue? base c with
    | none => ([], 0)
    | some d =>
      let gap := if s.head? = some '_' ∧ startsWithDigit base s.tail then 1 else 0
      let (ds, n) := digits base (s.drop gap)
      (d :: ds, 1 + gap + n)
termination_by s => s.length

def natOf (base : Nat) (ds : List Nat) : Nat := ds.foldl (base * · + ·) 0

/-- The base that a letter behind a zero stands for. -/
def baseOf? : Char → Option Nat
  | 'x' => some 16
  | 'o' => some 8
  | 'b' => some 2
  | _ => none

/-- A whole number in another base than ten. -/
def prefixed? : Text → Option (Setting × Nat)
  | '0' :: letter :: s => do
    let base ← baseOf? letter
    if startsWithDigit base s then
      let (ds, n) := digits base s
      return (.int (natOf base ds), 2 + n)
    else none
  | _ => none

def signLength (s : Text) : Nat := if s.head? = some '-' ∨ s.head? = some '+' then 1 else 0

/-- Digits behind a point; none if there is no point with a digit behind it. -/
def fraction (s : Text) : List Nat × Nat :=
  if s.head? = some '.' ∧ startsWithDigit 10 s.tail then
    let (ds, n) := digits 10 s.tail
    (ds, 1 + n)
  else ([], 0)

/-- An exponent, which is zero where there is none. -/
def exponent (s : Text) : Int × Nat :=
  let sign := signLength s.tail
  let s' := s.drop (1 + sign)
  if (s.head? = some 'e' ∨ s.head? = some 'E') ∧ startsWithDigit 10 s' then
    let (ds, n) := digits 10 s'
    ((if s.tail.head? = some '-' then -1 else 1) * natOf 10 ds, 1 + sign + n)
  else (0, 0)

/-- The number `size * 10 ^ power`, which is a whole number if it has neither fraction nor
exponent. -/
def numberOf (negative whole : Bool) (size : Nat) (power : Int) : Setting :=
  if whole then .int (if negative then -size else size) else .float (.ofDecimal negative size power)

/-- A number in decimal digits. If the first of them is a zero, no other stands in front of the
point. -/
def decimal? (s : Text) : Option (Setting × Nat) :=
  let sign := signLength s
  let t := s.drop sign
  if startsWithDigit 10 t then
    let (ds, n) := if t.head? = some '0' then ([0], 1) else digits 10 t
    let (places, m) := fraction (t.drop n)
    let (power, k) := exponent (t.drop (n + m))
    some (numberOf (s.head? = some '-') (m + k = 0) (natOf 10 (ds ++ places))
      (power - places.length), sign + n + m + k)
  else none

/-- Infinity, or what is no number. -/
def special? (s : Text) : Option (Setting × Nat) :=
  let sign := signLength s
  let word := (s.drop sign).take 3
  if word = "inf".toList then some (.float (.infinite (s.head? = some '-')), sign + 3)
  else if word = "nan".toList then some (.float .nan, sign + 3)
  else none

/-! Dates and times -/

/-- A number of just so many decimal digits. -/
def fixed? (width : Nat) (s : Text) : Option Nat := do
  let ds ← (s.take width).mapM (digitValue? 10)
  if ds.length = width then return natOf 10 ds else none

/-- The decimal digits at the front. -/
def plainDigits (s : Text) : List Nat :=
  (s.takeWhile fun c => (digitValue? 10 c).isSome).filterMap (digitValue? 10)

/-- The time at the front. Of the digits of a second behind the point all are taken, and the first
six count. -/
def clock? (s : Text) : Option (Clock × Nat) := do
  let hour ← fixed? 2 s
  let minute ← fixed? 2 (s.drop 3)
  let second ← fixed? 2 (s.drop 6)
  let places := if s[8]? = some '.' then plainDigits (s.drop 9) else []
  let micro := natOf 10 ((places ++ List.replicate 6 0).take 6)
  if h : IsClock hour minute second micro then
    if s[2]? = some ':' ∧ s[5]? = some ':' then
      return (⟨hour, minute, second, micro, h⟩, if places = [] then 8 else 9 + places.length)
    else none
  else none

/-- How far a clock is ahead of universal time. -/
def offset? (s : Text) : Option (Offset × Nat) :=
  if s.head? = some 'Z' ∨ s.head? = some 'z' then some (0, 1)
  else if signLength s = 1 ∧ s[3]? = some ':' then do
    let hours ← fixed? 2 (s.drop 1)
    let minutes ← fixed? 2 (s.drop 4)
    let size : Offset := hours * 60 + minutes
    if hours < 24 ∧ minutes < 60 then
      return (if s.head? = some '-' then -size else size, 6)
    else none
  else none

/-- Year, month and day. There need not be such a day. -/
def day? (s : Text) : Option (Nat × Nat × Nat) := do
  let year ← fixed? 4 s
  let month ← fixed? 2 (s.drop 5)
  let day ← fixed? 2 (s.drop 8)
  if s[4]? = some '-' ∧ s[7]? = some '-' ∧ 0 < month ∧ month ≤ 12 ∧ 0 < day ∧ day ≤ 31 then
    return (year, month, day)
  else none

/-- The time and the offset that follow a date, if they do. -/
def timeBehind (s : Text) : Option (Clock × Option Offset × Nat) := do
  if s.head? = some 'T' ∨ s.head? = some 't' ∨ s.head? = some ' ' then
    let (time, n) ← clock? s.tail
    match offset? (s.tail.drop n) with
    | some (offset, m) => return (time, some offset, 1 + n + m)
    | none => return (time, none, 1 + n)
  else none

/-- A setting that is written without quotes or brackets, apart from `true` and `false`. -/
def scalar (s : Text) : Option (Setting × Nat) :=
  match day? s with
  | some (year, month, day) =>
    if h : IsDate year month day then
      match timeBehind (s.drop 10) with
      | some (time, offset, n) => some (.moment ⟨year, month, day, h⟩ time offset, 10 + n)
      | none => some (.date ⟨year, month, day, h⟩, 10)
    else none
  | none =>
    match clock? s with
    | some (time, n) => some (.time time, n)
    | none => (prefixed? s).or ((decimal? s).or (special? s))

end Highlighter.Toml
