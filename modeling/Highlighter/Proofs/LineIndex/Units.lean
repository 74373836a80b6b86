import Highlighter.Proofs.LineIndex.Lines

/-!
Code units within a line. The units from the start of a line up to an offset in it are the character
of that offset's position, and the position leads back to the offset.
-/

set_option autoImplicit false

namespace Highlighter

namespace Text

variable {t : Text} {a b c : Nat}

theorem slice_append (t : Text) (hab : a ≤ b) (hbc : b ≤ c) :
    t.slice a b ++ t.slice b c = t.slice a c := by
  obtain ⟨m, rfl⟩ := Nat.exists_eq_add_of_le hab
  obtain ⟨n, rfl⟩ := Nat.exists_eq_add_of_le hbc
  rw [slice, slice, slice, Int.toNat_natCast, Int.toNat_natCast, Int.toNat_natCast,
    List.drop_take, List.drop_take, List.drop_take, Nat.add_sub_cancel_left,
    Nat.add_sub_cancel_left, Nat.add_assoc, Nat.add_sub_cancel_left, List.take_add, List.drop_drop]

theorem utf16Length_slice (t : Text) (hab : a ≤ b) (hbc : b ≤ c) :
    (t.slice a c).utf16Length = (t.slice a b).utf16Length + (t.slice b c).utf16Length := by
  rw [← slice_append t hab hbc, utf16Length_append]

theorem length_le_utf16Length (t : Text) : t.length ≤ t.utf16Length := by
  induction t with
  | nil => exact Nat.le_refl 0
  | cons c t ih =>
    have := utf16Width_pos c
    rw [List.length_cons, utf16Length_cons]
    omega

theorem utf16Length_slice_pos (hab : a < b) (hb : b ≤ t.length) :
    0 < (t.slice a b).utf16Length := by
  have hle := length_le_utf16Length (t.slice a b)
  rw [length_slice, Int.toNat_natCast, Int.toNat_natCast] at hle
  omega

end Text

namespace LineIndex

variable {t : Text} {line start stop i : Nat}

theorem charsFor_utf16Length (s u : Text) : charsFor s.utf16Length (s ++ u) = s.length := by
  induction s with
  | nil => cases u <;> rfl
  | cons c s ih =>
    have hpos := utf16Width_pos c
    have hrest : ((utf16Width c + Text.utf16Length s : Nat) : Int) - utf16Width c =
        Text.utf16Length s := by
      omega
    rw [List.cons_append, Text.utf16Length_cons, charsFor, if_pos (by omega), hrest, ih,
      List.length_cons]

/-- The position of an offset before the next line, be it in what ends its own line. -/
theorem positionAt_eq (h : (ofText t).starts[line]? = some start) (hi : start ≤ i)
    (hnext : ∀ next, (ofText t).starts[line + 1]? = some next → i < next) :
    (ofText t).positionAt i = (line, (t.slice start i).utf16Length) := by
  rw [positionAt, lineOf_eq h hi hnext, Int.toNat_natCast, List.getD_eq_getElem?_getD, h]
  rfl

theorem IsLine.positionAt_eq (h : IsLine t line start stop) (hi : start ≤ i) (hstop : i ≤ stop) :
    (ofText t).positionAt i = (line, (t.slice start i).utf16Length) :=
  LineIndex.positionAt_eq h.starts_eq hi fun next hnext => by
    have := h.stop_lt next hnext
    omega

theorem offsetAt_of_bounds? (h : (ofText t).bounds? line = some (start, stop)) (character : Int) :
    (ofText t).offsetAt line character = start + charsFor character (t.slice start stop) := by
  rw [offsetAt, if_neg (by omega), Int.toNat_natCast, h]
  rfl

theorem offsetAt_utf16Length (h : (ofText t).bounds? line = some (start, stop)) (hi : start ≤ i)
    (hstop : i ≤ stop) : (ofText t).offsetAt line (t.slice start i).utf16Length = i := by
  have hlength := (isLine_of_bounds? h).stop_le_length
  have hchars := charsFor_utf16Length (t.slice start i) (t.slice i stop)
  rw [Text.slice_append t hi hstop, Text.length_slice, Int.toNat_natCast, Int.toNat_natCast]
    at hchars
  rw [offsetAt_of_bounds? h, hchars]
  omega

end LineIndex

end Highlighter
