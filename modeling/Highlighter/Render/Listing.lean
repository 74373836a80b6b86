import Highlighter.Text.Quoted
import Highlighter.Token.Basic

/-!
Listings of tokens, one token a line.
-/

set_option autoImplicit false

namespace Highlighter

/-- A token as a line of a listing: its kind in a column of sixteen, its range and its lexeme. -/
def Token.line (t : Token) : Text :=
  let name := t.kind.name.toList
  name ++ List.replicate (16 - name.length) ' ' ++ ' ' :: (toString t.start).toList
    ++ ':' :: (toString t.stop).toList ++ ' ' :: t.lexeme.quoted ++ ['\n']

def listing (tokens : List Token) : Text := tokens.flatMap Token.line

end Highlighter
