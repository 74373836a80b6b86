import Highlighter.Edit.Basic
import Highlighter.Text.Line

/-!
Reports of refused edits: the message, the place, and the line of the text with a caret under the
place.
-/

set_option autoImplicit false

namespace Highlighter

namespace EditFault

def message : EditFault → String
  | startOutside start => s!"edit start {start} is outside the document"
  | stopBeforeStart start stop => s!"edit end {stop} is before its start {start}"
  | stopOutside stop => s!"edit end {stop} is outside the document"

/-- The position that a report points at; it may lie outside the text. -/
def offset : EditFault → Int
  | startOutside start => start
  | stopBeforeStart start _ => start
  | stopOutside stop => stop

end EditFault

namespace EditError

def message (e : EditError) : String := e.fault.message

def offset (e : EditError) : Int := e.fault.offset

/-- The lines of a report. -/
def reportLines (e : EditError) (file : Text) : List Text :=
  let (line, column) := e.source.lineColumn e.offset
  let number := (toString line).toList
  let margin := List.replicate (number.length + 1) ' '
  [ "error: ".toList ++ e.message.toList,
    margin ++ "--> ".toList ++ file ++ ':' :: number ++ ':' :: (toString column).toList,
    margin ++ ['|'],
    number ++ " | ".toList ++ e.source.lines.getD (line - 1) [],
    margin ++ "| ".toList ++ List.replicate (column - 1) ' ' ++ ['^'] ]

def report (e : EditError) (file : Text) : Text := ['\n'].intercalate (e.reportLines file)

/-- The file name that stands in a report when there is no better one. -/
def defaultFile : Text := "input.bithoven".toList

end EditError

end Highlighter
