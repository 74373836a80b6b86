import Highlighter.Edit.Between
import Highlighter.Proofs.Edit.Basic

/-!
The edit between two texts fits the old text and leads to the new one, and it is empty exactly
when the two are the same.
-/

set_option autoImplicit false

namespace Highlighter

namespace Text

theorem commonPrefix_le_right : ∀ s t : Text, commonPrefix s t ≤ t.length
  | [], _ => by simp [commonPrefix]
  | _ :: _, [] => by simp [commonPrefix]
  | a :: s, b :: t => by
    by_cases h : a = b
    · simpa [commonPrefix, h] using commonPrefix_le_right s t
    · simp [commonPrefix, h]

theorem take_commonPrefix : ∀ s t : Text, s.take (commonPrefix s t) = t.take (commonPrefix s t)
  | [], _ => by simp [commonPrefix]
  | _ :: _, [] => by simp [commonPrefix]
  | a :: s, b :: t => by
    by_cases h : a = b
    · simp [commonPrefix, h, take_commonPrefix s t]
    · simp [commonPrefix, h]

@[simp] theorem commonPrefix_self (t : Text) : commonPrefix t t = t.length := by
  induction t with
  | nil => rfl
  | cons c t ih => simp [commonPrefix, ih]

/-- What two texts have in common when they are read backwards is a common end. -/
theorem drop_commonPrefix_reverse (s t : Text) :
    s.drop (s.length - commonPrefix s.reverse t.reverse) =
      t.drop (t.length - commonPrefix s.reverse t.reverse) := by
  have h := congrArg List.reverse (take_commonPrefix s.reverse t.reverse)
  simpa only [List.take_reverse, List.reverse_reverse] using h

end Text

namespace Edit

/-- How much of the two texts stays behind the edit between them. -/
def backLength (old new : Text) : Nat :=
  Text.commonPrefix (old.drop (old.commonPrefix new)).reverse
    (new.drop (old.commonPrefix new)).reverse

theorem between_eq (old new : Text) :
    between old new = ⟨old.commonPrefix new, old.length - backLength old new,
      new.slice (old.commonPrefix new) (new.length - backLength old new)⟩ := rfl

theorem front_add_back_le_old (old new : Text) :
    old.commonPrefix new + backLength old new ≤ old.length := by
  have hf := Text.commonPrefix_le_left old new
  have hb := Text.commonPrefix_le_left (old.drop (old.commonPrefix new)).reverse
    (new.drop (old.commonPrefix new)).reverse
  rw [List.length_reverse, List.length_drop] at hb
  unfold backLength
  omega

theorem front_add_back_le_new (old new : Text) :
    old.commonPrefix new + backLength old new ≤ new.length := by
  have hf := Text.commonPrefix_le_right old new
  have hb := Text.commonPrefix_le_right (old.drop (old.commonPrefix new)).reverse
    (new.drop (old.commonPrefix new)).reverse
  rw [List.length_reverse, List.length_drop] at hb
  unfold backLength
  omega

theorem drop_back (old new : Text) :
    new.drop (new.length - backLength old new) = old.drop (old.length - backLength old new) := by
  have hold := front_add_back_le_old old new
  have hnew := front_add_back_le_new old new
  have h := Text.drop_commonPrefix_reverse (old.drop (old.commonPrefix new))
    (new.drop (old.commonPrefix new))
  rw [← backLength, List.drop_drop, List.drop_drop, List.length_drop, List.length_drop] at h
  have ho : old.commonPrefix new + (old.length - old.commonPrefix new - backLength old new) =
      old.length - backLength old new := by omega
  have hn : old.commonPrefix new + (new.length - old.commonPrefix new - backLength old new) =
      new.length - backLength old new := by omega
  rw [ho, hn] at h
  exact h.symm

theorem between_fits (old new : Text) : (between old new).Fits old := by
  have h := front_add_back_le_old old new
  rw [between_eq]
  refine ⟨?_, ?_, ?_⟩ <;> dsimp only <;> omega

theorem between_result (old new : Text) : (between old new).result old = new := by
  have hold := front_add_back_le_old old new
  have hnew := front_add_back_le_new old new
  rw [between_eq]
  apply result_slice
  · omega
  · exact (Text.take_commonPrefix old new).symm
  · have ho : ((old.length : Int) - backLength old new).toNat =
        old.length - backLength old new := by omega
    have hn : ((new.length : Int) - backLength old new).toNat =
        new.length - backLength old new := by omega
    rw [ho, hn]
    exact drop_back old new

theorem result_of_isEmpty {e : Edit} {t : Text} (h : e.isEmpty = true) : e.result t = t := by
  rw [isEmpty, Bool.and_eq_true, decide_eq_true_iff, List.isEmpty_iff] at h
  rw [result, h.1, h.2, List.append_nil, List.take_append_drop]

theorem between_isEmpty_iff (old new : Text) : (between old new).isEmpty = true ↔ old = new := by
  constructor
  · intro h
    have hresult := between_result old new
    rwa [result_of_isEmpty h] at hresult
  · rintro rfl
    simp [between_eq, isEmpty, backLength, Text.slice]

end Edit

end Highlighter
