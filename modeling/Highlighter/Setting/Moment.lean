import Highlighter.Text.Basic

/-!
Dates and times of day, as a calendar and a clock have them, and moments, which join the two and may
tell how far the clock is ahead of universal time.
-/

set_option autoImplicit false

namespace Highlighter

def isLeapYear (year : Nat) : Bool := year % 4 = 0 && (year % 100 ≠ 0 || year % 400 = 0)

def daysOf (year month : Nat) : Nat :=
  if month = 2 then if isLeapYear year then 29 else 28
  else if month = 4 ∨ month = 6 ∨ month = 9 ∨ month = 11 then 30
  else 31

def IsDate (year month day : Nat) : Prop :=
  (0 < year ∧ year < 10000) ∧ (0 < month ∧ month ≤ 12) ∧ 0 < day ∧ day ≤ daysOf year month

instance (year month day : Nat) : Decidable (IsDate year month day) :=
  inferInstanceAs (Decidable (_ ∧ _))

structure Date where
  year : Nat
  month : Nat
  day : Nat
  valid : IsDate year month day
  deriving DecidableEq, Repr

def IsClock (hour minute second micro : Nat) : Prop :=
  hour < 24 ∧ minute < 60 ∧ second < 60 ∧ micro < 1000000

instance (hour minute second micro : Nat) : Decidable (IsClock hour minute second micro) :=
  inferInstanceAs (Decidable (_ ∧ _))

/-- A time of day, down to microseconds. -/
structure Clock where
  hour : Nat
  minute : Nat
  second : Nat
  micro : Nat
  valid : IsClock hour minute second micro
  deriving DecidableEq, Repr

/-- How many minutes a clock is ahead of universal time. -/
abbrev Offset := Int

/-- A name with numbers in brackets behind it. -/
def call (name : String) (arguments : List Text) : Text :=
  name.toList ++ '(' :: ", ".toList.intercalate arguments ++ [')']

def numbers (ns : List Nat) : List Text := ns.map (Nat.toDigits 10)

namespace Date

def parts (d : Date) : List Nat := [d.year, d.month, d.day]

def shown (d : Date) : Text := call "datetime.date" (numbers d.parts)

end Date

namespace Clock

/-- The parts of a time, without microseconds that are none, and then without seconds that are
none. -/
def parts (t : Clock) : List Nat :=
  [t.hour, t.minute] ++
    if t.micro ≠ 0 then [t.second, t.micro] else if t.second ≠ 0 then [t.second] else []

def shown (t : Clock) : Text := call "datetime.time" (numbers t.parts)

end Clock

/-- The time zone of an offset. An offset back is shown as a day back and some seconds forth. -/
def zoneShown (offset : Offset) : Text :=
  if offset = 0 then "datetime.timezone.utc".toList
  else
    let seconds := "seconds=".toList ++ Nat.toDigits 10 (offset % 1440 * 60).toNat
    call "datetime.timezone" [call "datetime.timedelta"
      (if offset < 0 then ["days=-1".toList, seconds] else [seconds])]

def momentShown (d : Date) (t : Clock) (offset : Option Offset) : Text :=
  call "datetime.datetime" (numbers (d.parts ++ t.parts) ++
    (offset.map fun o => "tzinfo=".toList ++ zoneShown o).toList)

end Highlighter
