import Highlighter.Tokenize

/-!
Spans: the regions of a text and the tags by which they are coloured. Tokens that touch and share
a tag share a span.
-/

set_option autoImplicit false

namespace Highlighter

structure Span where
  start : Int
  stop : Int
  tag : Text
  deriving DecidableEq, Repr

namespace Span

/-- Puts a span in front of others, as one with the first of them if the two touch and have the
same tag. -/
def join (s : Span) : List Span → List Span
  | [] => [s]
  | r :: rs =>
    if s.tag = r.tag ∧ s.stop = r.start then ⟨s.start, r.stop, s.tag⟩ :: rs else s :: r :: rs

def ofTokens (c : Config) : List Token → List Span
  | [] => []
  | t :: ts => join ⟨t.start, t.stop, c.tag t.kind⟩ (ofTokens c ts)

end Span

def highlight (c : Config) (t : Text) : List Span := Span.ofTokens c (tokenize c.keywords t)

end Highlighter
