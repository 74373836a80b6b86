import Highlighter.Tokenize

/-!
Caches: a text together with its classified tokens, and how many tokens the scanner read to make
it. After an edit, a cache is brought up to date by reading only around the edited range.
-/

set_option autoImplicit false

namespace Highlighter

structure Cache where
  text : Text
  tokens : List Token
  rescanned : Nat
  deriving DecidableEq, Repr

namespace Cache

/-- Where the tokens start. -/
def starts (c : Cache) : List Int := c.tokens.map (·.start)

/-- The cache of a text that is read as a whole. -/
def load (keywords : Keywords) (t : Text) : Cache :=
  ⟨t, tokenize keywords t, (tokenize keywords t).length⟩

end Cache

end Highlighter
