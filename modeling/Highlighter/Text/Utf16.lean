import Highlighter.Text.Basic

/-!
Lengths in UTF-16 code units: two for a character above U+FFFF and one for any other.
-/

set_option autoImplicit false

namespace Highlighter

def utf16Width (c : Char) : Nat := if 0xFFFF < c.toNat then 2 else 1

def Text.utf16Length : Text → Nat
  | [] => 0
  | c :: t => utf16Width c + utf16Length t

theorem utf16Width_pos (c : Char) : 0 < utf16Width c := by
  unfold utf16Width; split <;> omega

namespace Text

@[simp] theorem utf16Length_nil : utf16Length [] = 0 := rfl

@[simp] theorem utf16Length_cons (c : Char) (t : Text) :
    utf16Length (c :: t) = utf16Width c + utf16Length t := rfl

@[simp] theorem utf16Length_append (s t : Text) :
    utf16Length (s ++ t) = utf16Length s + utf16Length t := by
  induction s with
  | nil => simp
  | cons c s ih => rw [List.cons_append, utf16Length_cons, utf16Length_cons, ih, Nat.add_assoc]

end Text

end Highlighter
