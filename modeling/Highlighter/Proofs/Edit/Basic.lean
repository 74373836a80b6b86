import Highlighter.Edit.Basic

/-!
What an edit leaves of a text: in front of its range the text as it was, behind the inserted text
what stood behind the range. A text with both properties is the result of the edit.
-/

set_option autoImplicit false

namespace Highlighter

namespace Text

/-- A text is what lies before, between and behind two positions. -/
theorem take_slice_drop (t : Text) {i j : Int} (h : i ≤ j) :
    t.take i.toNat ++ t.slice i j ++ t.drop j.toNat = t := by
  have hi : t.take i.toNat = (t.take j.toNat).take i.toNat := by
    rw [List.take_take, Nat.min_eq_left (by omega)]
  rw [slice, hi, List.take_append_drop, List.take_append_drop]

end Text

namespace Edit

/-- The text after edits, one after the other. -/
def resultAll (es : List Edit) (t : Text) : Text := es.foldl (fun t e => e.result t) t

variable {e : Edit} {t : Text}

theorem apply_of_not_fits (h : ¬ e.Fits t) : ∃ fault, e.apply t = .error ⟨fault, t⟩ := by
  cases hf : e.fault? t with
  | none => exact absurd ((fault?_eq_none_iff e t).mp hf) h
  | some fault => exact ⟨fault, by simp [apply, hf]⟩

theorem Fits.start_nonneg (h : e.Fits t) : 0 ≤ e.start := h.1

theorem Fits.start_le_stop (h : e.Fits t) : e.start ≤ e.stop := h.2.1

theorem Fits.stop_le_length (h : e.Fits t) : e.stop ≤ t.length := h.2.2

theorem newStop_eq (e : Edit) : e.newStop = e.stop + e.delta := by
  unfold newStop delta
  omega

theorem start_le_newStop (e : Edit) : e.start ≤ e.newStop := by
  unfold newStop
  omega

theorem length_result (h : e.Fits t) : ((e.result t).length : Int) = t.length + e.delta := by
  obtain ⟨h0, h1, h2⟩ := h
  simp only [result, delta, List.length_append, List.length_take, List.length_drop]
  omega

theorem take_result (h : e.Fits t) {i : Int} (hi : i ≤ e.start) :
    (e.result t).take i.toNat = t.take i.toNat := by
  obtain ⟨h0, h1, h2⟩ := h
  have hl : i.toNat ≤ (t.take e.start.toNat).length := by
    rw [List.length_take]
    omega
  rw [result, List.append_assoc, List.take_append_of_le_length hl, List.take_take,
    Nat.min_eq_left (by omega)]

theorem drop_result (h : e.Fits t) {i : Int} (hi : e.newStop ≤ i) :
    (e.result t).drop i.toNat = t.drop (i - e.delta).toNat := by
  obtain ⟨h0, h1, h2⟩ := h
  have hstart := e.start_le_newStop
  have hstop := e.newStop_eq
  have hlen : (t.take e.start.toNat ++ e.text).length = e.newStop.toNat := by
    rw [List.length_append, List.length_take, newStop]
    omega
  have hsplit : i.toNat = (t.take e.start.toNat ++ e.text).length + (i - e.newStop).toNat := by
    omega
  rw [result, hsplit, List.drop_length_add_append, List.drop_drop]
  congr 1
  omega

/-- An edit whose text is cut out of `u` leads to `u` if `u` goes with the old text in front of the
edit and behind it. -/
theorem result_slice {t u : Text} {start stop newStop : Int} (h : start ≤ newStop)
    (hfront : u.take start.toNat = t.take start.toNat)
    (hback : u.drop newStop.toNat = t.drop stop.toNat) :
    (Edit.mk start stop (u.slice start newStop)).result t = u := by
  rw [result, ← hfront, ← hback]
  exact u.take_slice_drop h

end Edit

end Highlighter
