import Highlighter.Edit.Basic

/-!
The edit between two texts: what is left of them without their common beginning and, after that,
their common end.
-/

set_option autoImplicit false

namespace Highlighter.Edit

def between (old new : Text) : Edit :=
  let front := old.commonPrefix new
  let back := Text.commonPrefix (old.drop front).reverse (new.drop front).reverse
  ⟨front, old.length - back, new.slice front (new.length - back)⟩

/-- The edit changes nothing: it removes nothing and inserts nothing. -/
def isEmpty (e : Edit) : Bool := e.start = e.stop && e.text.isEmpty

end Highlighter.Edit
