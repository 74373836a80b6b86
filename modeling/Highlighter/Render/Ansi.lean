import Highlighter.Render.Theme
import Highlighter.Span

/-!
Text for a terminal: every span that the theme colours stands between an escape sequence that
selects the colour and one that goes back to no colour.
-/

set_option autoImplicit false

namespace Highlighter

/-- A theme gives a colour that does not exist. -/
structure UnknownColor where
  color : Text
  deriving DecidableEq, Repr

namespace Ansi

/-- The escape sequence with a number: a colour, or zero for none. -/
def select (code : Nat) : Text := '\x1b' :: '[' :: (toString code).toList ++ ['m']

def renderSpan (theme : Theme) (t : Text) (s : Span) : Except UnknownColor Text :=
  match theme.get? s.tag with
  | none => .ok (t.slice s.start s.stop)
  | some color =>
    match colorCodes.get? color with
    | none => .error ⟨color⟩
    | some code => .ok (select code ++ t.slice s.start s.stop ++ select 0)

def render (theme : Theme) (t : Text) (spans : List Span) : Except UnknownColor Text := do
  return (← spans.mapM (renderSpan theme t)).flatten

end Ansi

end Highlighter
