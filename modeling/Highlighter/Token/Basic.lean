import Highlighter.Token.Kind

/-!
Tokens: the pieces into which a text is cut, each with the kind it is coloured by.
-/

set_option autoImplicit false

namespace Highlighter

/-- The piece of a text from `start` up to `stop`. -/
structure Token where
  kind : Kind
  start : Int
  stop : Int
  lexeme : Text
  deriving DecidableEq, Repr

namespace Token

/-- The same token, `delta` characters further on. -/
def shift (delta : Int) (t : Token) : Token :=
  { t with start := t.start + delta, stop := t.stop + delta }

@[simp] theorem shift_kind (delta : Int) (t : Token) : (t.shift delta).kind = t.kind := rfl

@[simp] theorem shift_lexeme (delta : Int) (t : Token) : (t.shift delta).lexeme = t.lexeme := rfl

end Token

end Highlighter
