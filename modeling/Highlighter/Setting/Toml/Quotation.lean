import Highlighter.Text.Basic

/-!
Strings of TOML. A string stands between quotes, or between three of them on each side if it goes
over several lines. Between double quotes, characters may be escaped. A reader of a string tells
what the string holds, and how many characters it takes behind its opening quote.
-/

set_option autoImplicit false

namespace Highlighter.Toml

/-- Control characters other than the tab may stand neither in strings on one line nor in
comments. -/
def isControl (c : Char) : Bool := (c.toNat < 0x20 && c != '\t') || c.toNat == 0x7F

def isSpace (c : Char) : Bool := c == ' ' || c == '\t'

/-- Blanks and line ends. -/
def isFill (c : Char) : Bool := isSpace c || c == '\n'

/-- How many characters at the front have a property. -/
def runOf (p : Char → Bool) (s : Text) : Nat := (s.takeWhile p).length

/-- The value of a hexadecimal digit. -/
def hexValue? (c : Char) : Option Nat :=
  if '0' ≤ c ∧ c ≤ '9' then some (c.toNat - 48)
  else if 'a' ≤ c ∧ c ≤ 'f' then some (c.toNat - 87)
  else if 'A' ≤ c ∧ c ≤ 'F' then some (c.toNat - 55)
  else none

/-- The character whose code point is written in so many digits. -/
def hexChar (width : Nat) (s : Text) : Option Char := do
  let digits ← (s.take width).mapM hexValue?
  let code := digits.foldl (16 * · + ·) 0
  if h : digits.length = width ∧ code.isValidChar then return Char.ofNatAux code h.2 else none

def escaped? : Char → Option Char
  | 'b' => some '\x08'
  | 't' => some '\t'
  | 'n' => some '\n'
  | 'f' => some '\x0c'
  | 'r' => some '\r'
  | '"' => some '"'
  | '\\' => some '\\'
  | _ => none

/-- A line that goes on in the next: blanks up to the end of the line, and all blanks and line ends
behind it. -/
def joinedLines (s : Text) : Option Nat :=
  let n := runOf isSpace s
  match s.drop n with
  | [] => some n
  | '\n' :: s => some (n + 1 + runOf isFill s)
  | _ => none

/-- What an escape stands for, behind its backslash. -/
def escape (long : Bool) : Text → Option (Text × Nat)
  | [] => none
  | c :: s =>
    if long && isFill c then (joinedLines (c :: s)).map fun n => ([], n)
    else if c = 'u' then (hexChar 4 s).map fun char => ([char], 5)
    else if c = 'U' then (hexChar 8 s).map fun char => ([char], 9)
    else (escaped? c).map fun char => ([char], 1)

/-- What stands in front of a closing quote, or in front of three if the string is `long`. -/
def quotation (quote : Char) (long : Bool) : Text → Option (Text × Nat)
  | [] => none
  | c :: s =>
    if c = quote ∧ (long → s.take 2 = [quote, quote]) then some ([], if long then 3 else 1)
    else if c = '\\' ∧ quote = '"' then do
      let (chars, taken) ← escape long s
      let (more, n) ← quotation quote long (s.drop taken)
      return (chars ++ more, 1 + taken + n)
    else if isControl c && !(long && c == '\n') then none
    else do
      let (more, n) ← quotation quote long s
      return (c :: more, 1 + n)
termination_by s => s.length

/-- A string over several lines, behind three quotes. A line end right behind these is left out. Of
more than three quotes at the end, up to two belong to the string. -/
def longString (quote : Char) (s : Text) : Option (Text × Nat) := do
  let first := if s.head? = some '\n' then 1 else 0
  let (body, n) ← quotation quote true (s.drop first)
  let more := min 2 (runOf (· == quote) (s.drop (first + n)))
  return (body ++ List.replicate more quote, first + n + more)

/-- A string behind its opening quote. -/
def stringOf (quote : Char) (s : Text) : Option (Text × Nat) :=
  if s.take 2 = [quote, quote] then (longString quote (s.drop 2)).map fun r => (r.1, 2 + r.2)
  else quotation quote false s

end Highlighter.Toml
