import Highlighter.Config.Basic
import Highlighter.Token.Scan

/-!
The classified tokens of a text: what a scan finds, with keywords told apart from other words.
-/

set_option autoImplicit false

namespace Highlighter

def tokenize (keywords : Keywords) (t : Text) : List Token := (scan t).map keywords.classify

end Highlighter
