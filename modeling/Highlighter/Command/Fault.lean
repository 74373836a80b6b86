import Highlighter.Command.Files
import Highlighter.Edit.Report
import Highlighter.Render.Ansi
import Highlighter.Text.Utf8

/-!
Faults: what goes wrong in a run without being a matter of how the command is used.
-/

set_option autoImplicit false

namespace Highlighter

inductive Fault where
  | os (e : OsError)
  | encoding (f : Utf8Fault)
  | color (c : UnknownColor)
  | edit (e : EditError)
  deriving Repr

def Fault.message : Fault → String
  | os e => e.message
  | encoding f => f.message
  | color c => String.ofList c.color
  | edit e => String.ofList (e.report EditError.defaultFile)

end Highlighter
