import Highlighter.Config.Fault

/-!
Themes: which colour the spans of a tag are shown in. A theme names the sixteen colours of a
terminal; tags that it does not name are not coloured.
-/

set_option autoImplicit false

namespace Highlighter

/-- The codes that select the foreground colours of a terminal. -/
def colorCodes : Entries Text Nat := [
  ("black".toList, 30), ("red".toList, 31), ("green".toList, 32), ("yellow".toList, 33),
  ("blue".toList, 34), ("magenta".toList, 35), ("cyan".toList, 36), ("white".toList, 37),
  ("bright_black".toList, 90), ("bright_red".toList, 91), ("bright_green".toList, 92),
  ("bright_yellow".toList, 93), ("bright_blue".toList, 94), ("bright_magenta".toList, 95),
  ("bright_cyan".toList, 96), ("bright_white".toList, 97)]

/-- Colour names by tag. -/
abbrev Theme := Entries Text Text

namespace Theme

def standard : Theme := [
  ("pragma-keyword".toList, "magenta".toList),
  ("pragma-value".toList, "cyan".toList),
  ("control-keyword".toList, "bright_magenta".toList),
  ("timelock-keyword".toList, "bright_yellow".toList),
  ("opcode-keyword".toList, "bright_blue".toList),
  ("type-keyword".toList, "bright_cyan".toList),
  ("bool-literal".toList, "yellow".toList),
  ("string-literal".toList, "green".toList),
  ("number-literal".toList, "yellow".toList),
  ("line-comment".toList, "bright_black".toList),
  ("block-comment".toList, "bright_black".toList),
  ("unknown".toList, "red".toList)]

/-- Gives a tag a colour. -/
def paint (theme : Theme) (entry : Text × Setting) : Except ConfigFault Theme :=
  match entry.2 with
  | .str color =>
    if (colorCodes.get? color).isSome then .ok (theme.put entry.1 color)
    else .error (.unknownColor entry.1 entry.2)
  | _ => .error (.unknownColor entry.1 entry.2)

/-- The standard theme with the colours that a configuration gives. -/
def ofSetting : Option Setting → Except ConfigFault Theme
  | none | some .null => .ok standard
  | some (.table entries) => entries.foldlM paint standard
  | some _ => .error (.notATable "theme")

end Theme

end Highlighter
