import Highlighter.Edit.Basic

/-!
Folding two edits into one. `pending` leads from a first text to a second and `edit` from the
second to a third; the combined edit leads from the first to the third. Its range is the smallest
that covers both.
-/

set_option autoImplicit false

namespace Highlighter.Edit

/-- The edit that does what `pending` and then `edit` do; `new` is the text after both. -/
def combine (pending edit : Edit) (new : Text) : Edit :=
  let start := min pending.start edit.start
  let stop := max pending.newStop edit.stop
  ⟨start, pending.stop + (stop - pending.newStop), new.slice start (stop + edit.delta)⟩

end Highlighter.Edit
