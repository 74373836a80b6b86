import Highlighter.Entries
import Highlighter.Setting.Double
import Highlighter.Setting.Moment
import Highlighter.Text.Quoted

/-!
Settings: the values that a configuration may hold.
-/

set_option autoImplicit false

namespace Highlighter

inductive Setting where
  | null
  | bool (b : Bool)
  | int (n : Int)
  | float (x : Double)
  | date (d : Date)
  | time (t : Clock)
  | moment (d : Date) (t : Clock) (offset : Option Offset)
  | str (t : Text)
  | list (items : List Setting)
  | table (entries : List (Text × Setting))
  deriving Repr, Inhabited

/-- A table of settings. -/
abbrev Table := Entries Text Setting

namespace Setting

mutual

/-- The setting as messages show it. -/
def quoted : Setting → Text
  | null => "None".toList
  | bool b => (if b then "True" else "False").toList
  | int n => (toString n).toList
  | float x => x.shown
  | date d => d.shown
  | time t => t.shown
  | moment d t offset => momentShown d t offset
  | str t => t.quoted
  | list items => '[' :: ", ".toList.intercalate (quotedItems items) ++ [']']
  | table entries => '{' :: ", ".toList.intercalate (quotedEntries entries) ++ ['}']

def quotedItems : List Setting → List Text
  | [] => []
  | s :: ss => quoted s :: quotedItems ss

def quotedEntries : List (Text × Setting) → List Text
  | [] => []
  | (k, s) :: es => (k.quoted ++ ": ".toList ++ quoted s) :: quotedEntries es

end

end Setting

end Highlighter
