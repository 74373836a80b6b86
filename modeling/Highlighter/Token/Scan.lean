import Highlighter.Token.Scanner

/-!
Scans. Token by token, a text is cut from a place to its end. A scan may also start inside a comment
or a string, in the mode of that construct. What is then read first is the rest of the construct,
or, where nothing of it is left, the token after it.
-/

set_option autoImplicit false

namespace Highlighter

/-- The token of a text at `offset` and the mode behind it; none at the end of the text. -/
def nextToken? (t : Text) (offset : Nat) (mode : Mode) : Option (Token × Mode) :=
  if t.length ≤ offset then none
  else some (Scanner.next { source := t, start := offset, place := offset, mode })

theorem lt_of_nextToken? {t : Text} {offset : Nat} {mode after : Mode} {u : Token}
    (h : nextToken? t offset mode = some (u, after)) :
    offset < t.length ∧ offset < u.stop.toNat := by
  rw [nextToken?] at h
  split at h
  · cases h
  · rename_i hlt
    have hstop := Scanner.start_lt_stop_next
      (x := { source := t, start := offset, place := offset, mode })
      (Nat.le_refl offset) (Nat.lt_of_not_le hlt)
    rw [Option.some.inj h] at hstop
    exact ⟨Nat.lt_of_not_le hlt, hstop⟩

/-- The tokens of a text from `offset` on. -/
def scanAt (t : Text) (offset : Nat) (mode : Mode) : List Token :=
  match h : nextToken? t offset mode with
  | none => []
  | some (u, after) =>
    have := lt_of_nextToken? h
    u :: scanAt t u.stop.toNat after
termination_by t.length - offset

def scan (t : Text) : List Token := scanAt t 0 .default

end Highlighter
