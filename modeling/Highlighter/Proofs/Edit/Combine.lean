import Highlighter.Edit.Combine
import Highlighter.Proofs.Edit.Basic

/-!
Folding an edit into a pending one. If the pending edit fits a first text and the edit fits what it
leaves, the combined edit fits the first text and leaves what the two leave one after the other.
-/

set_option autoImplicit false

namespace Highlighter.Edit

variable {pending edit : Edit} {t : Text}

theorem combine_fits (hp : pending.Fits t) (he : edit.Fits (pending.result t)) (new : Text) :
    (pending.combine edit new).Fits t := by
  have hlength := length_result hp
  have hstop := pending.newStop_eq
  have hpending := pending.start_le_newStop
  obtain ⟨hp0, hp1, hp2⟩ := hp
  obtain ⟨he0, he1, he2⟩ := he
  refine ⟨?_, ?_, ?_⟩ <;> dsimp only [combine] <;> omega

theorem combine_result (hp : pending.Fits t) (he : edit.Fits (pending.result t)) :
    (pending.combine edit (edit.result (pending.result t))).result t =
      edit.result (pending.result t) := by
  have hpending := pending.newStop_eq
  have hedit := edit.newStop_eq
  have hstart := pending.start_le_newStop
  have hle := he.start_le_stop
  apply result_slice
  · have := edit.start_le_newStop
    omega
  · rw [take_result he (by omega), take_result hp (by omega)]
  · rw [drop_result he (by omega), drop_result hp (by omega)]
    congr 1
    omega

end Highlighter.Edit
